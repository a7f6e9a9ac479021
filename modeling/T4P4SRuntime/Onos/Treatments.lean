import T4P4SRuntime.L2fwd
import T4P4SRuntime.Onos.Pipeliner
import T4P4SRuntime.Onos.PortNumbers

namespace Onos

open P4Config

structure ActionOf (info : P4Info) (table : Table) {S : Type} (action : PiAction S) : Prop where
  listed : ∃ decl ∈ info.actions, decl.preamble.id ∈ table.actionRefs ∧
    decl.preamble.name = action.id ∧
    action.parameters.map PiActionParam.id = decl.params.map FieldDecl.name

variable {P T S B D : Type}

def Outputs (platform : Platform P T S B D) (port : P) : Prop :=
  platform.isLogical port = false ∨ platform.portEquals port platform.controller = true

def Supported (platform : Platform P T S B D) (treatment : TrafficTreatment P T) : Prop :=
  treatment.allInstructions = [] ∨
    ∃ port, treatment.allInstructions = [.output port] ∧ Outputs platform port

structure TreatmentMapped (platform : Platform P T S B D) (interpreter : PipelineInterpreterImpl)
    (treatment : TrafficTreatment P T) (piTableId : PiTableId) : Prop where
  throws_iff : (∃ message, interpreter.mapTreatment platform treatment piTableId =
    .error (.piInterpreter message)) ↔ ¬Supported platform treatment
  mapped : Supported platform treatment →
    ∃ action, interpreter.mapTreatment platform treatment piTableId = .ok action ∧
      ActionOf L2fwd.p4info L2fwd.dmac action

variable {platform : Platform P T S B D} {interpreter : PipelineInterpreterImpl}
  {treatment : TrafficTreatment P T} {piTableId : PiTableId} {port : P}

theorem mapTreatment_other (h : piTableId ≠ interpreter.tableL2FwdId) :
    interpreter.mapTreatment platform treatment piTableId =
      .error (.piInterpreter "Can map treatments only for 't_l2_fwd' table") := by
  rw [PipelineInterpreterImpl.mapTreatment, if_pos h]
  rfl

theorem mapTreatment_nil (h : treatment.allInstructions = []) :
    interpreter.mapTreatment platform treatment interpreter.tableL2FwdId =
      .ok { id := actIdNop, parameters := [] } := by
  rw [PipelineInterpreterImpl.mapTreatment, if_neg (not_not.mpr rfl), if_pos (by simp [h])]
  rfl

theorem mapTreatment_output (h : treatment.allInstructions = [.output port]) :
    interpreter.mapTreatment platform treatment interpreter.tableL2FwdId =
      if platform.isLogical port = false then
        .ok
          { id := actIdSetEgressPort
            parameters :=
              [{ id := actParamIdPort, value := platform.copyFromLong (platform.toLong port) }] }
      else if platform.portEquals port platform.controller then
        .ok { id := actIdSendToCpu, parameters := [] }
      else .error (.piInterpreter (logicalPortMessage platform port)) := by
  rw [PipelineInterpreterImpl.mapTreatment, if_neg (not_not.mpr rfl), if_neg (by simp [h]),
    if_neg (by simp [h]), TrafficTreatment.get_zero h]
  rfl

theorem mapTreatment_other_type {type : T} (h : treatment.allInstructions = [.other type]) :
    interpreter.mapTreatment platform treatment interpreter.tableL2FwdId =
      .error (.piInterpreter
        ("Instruction of type '" ++ platform.typeName type ++ "' not supported")) := by
  rw [PipelineInterpreterImpl.mapTreatment, if_neg (not_not.mpr rfl), if_neg (by simp [h]),
    if_neg (by simp [h]), TrafficTreatment.get_zero h]
  rfl

theorem mapTreatment_multiple (h : 1 < treatment.allInstructions.length) :
    interpreter.mapTreatment platform treatment interpreter.tableL2FwdId =
      .error (.piInterpreter "Treatment has multiple instructions") := by
  rw [PipelineInterpreterImpl.mapTreatment, if_neg (not_not.mpr rfl), if_neg (by omega), if_pos h]
  rfl

theorem mapTreatment_unsupported (h : ¬Supported platform treatment) :
    ∃ message, interpreter.mapTreatment platform treatment interpreter.tableL2FwdId =
      .error (.piInterpreter message) := by
  cases hi : treatment.allInstructions with
  | nil => exact absurd (Or.inl hi) h
  | cons first rest =>
      cases rest with
      | cons second rest => exact ⟨_, mapTreatment_multiple (by simp [hi])⟩
      | nil =>
          cases first with
          | other type => exact ⟨_, mapTreatment_other_type hi⟩
          | output port =>
              have hport : ¬Outputs platform port := fun ho => h (Or.inr ⟨port, hi, ho⟩)
              rw [Outputs, not_or] at hport
              rw [mapTreatment_output hi, if_neg hport.1, if_neg hport.2]
              exact ⟨_, rfl⟩

theorem nop_not_of_dmac :
    ¬ActionOf L2fwd.p4info L2fwd.dmac ({ id := actIdNop, parameters := [] } : PiAction S) := by
  rintro ⟨decl, hmem, -, hname, -⟩
  have hnames : ∀ decl ∈ L2fwd.p4info.actions, decl.preamble.name ≠ actIdNop := by decide
  exact hnames decl hmem hname

theorem forward_of_dmac (value : S) :
    ActionOf L2fwd.p4info L2fwd.dmac
      { id := actIdSetEgressPort, parameters := [{ id := actParamIdPort, value := value }] } :=
  ⟨L2fwd.forward, by decide, by decide, rfl, rfl⟩

theorem bcast_of_dmac :
    ActionOf L2fwd.p4info L2fwd.dmac ({ id := actIdSendToCpu, parameters := [] } : PiAction S) :=
  ⟨L2fwd.bcast, by decide, by decide, rfl, rfl⟩

theorem mapTreatment_outputs (interpreter : PipelineInterpreterImpl)
    (h : treatment.allInstructions = [.output port]) (ho : Outputs platform port) :
    ∃ action, interpreter.mapTreatment platform treatment interpreter.tableL2FwdId = .ok action ∧
      ActionOf L2fwd.p4info L2fwd.dmac action := by
  rw [mapTreatment_output h]
  rcases Bool.eq_false_or_eq_true (platform.isLogical port) with hl | hl
  · rcases ho with hp | hc
    · simp [hl] at hp
    · rw [if_neg (by simp [hl]), if_pos hc]
      exact ⟨_, rfl, bcast_of_dmac⟩
  · rw [if_pos hl]
    exact ⟨_, rfl, forward_of_dmac _⟩

theorem treatmentMapped_of_unsupported (h : ¬Supported platform treatment) :
    TreatmentMapped platform interpreter treatment piTableId := by
  refine ⟨⟨fun _ => h, fun _ => ?_⟩, fun hs => absurd hs h⟩
  rcases eq_or_ne piTableId interpreter.tableL2FwdId with rfl | hid
  · exact mapTreatment_unsupported h
  · exact ⟨_, mapTreatment_other hid⟩

theorem treatmentMapped_of_own (h : treatment.allInstructions = [.output port])
    (ho : Outputs platform port) :
    TreatmentMapped platform interpreter treatment interpreter.tableL2FwdId := by
  obtain ⟨action, he, hof⟩ := mapTreatment_outputs interpreter h ho
  refine ⟨⟨?_, fun hn => absurd (Or.inr ⟨port, h, ho⟩) hn⟩, fun _ => ⟨action, he, hof⟩⟩
  rintro ⟨message, herr⟩
  rw [he] at herr
  cases herr

theorem treatmentMapped_of_nonempty (h : treatment.allInstructions ≠ []) :
    TreatmentMapped platform interpreter treatment interpreter.tableL2FwdId := by
  by_cases hs : Supported platform treatment
  · rcases hs with hnil | ⟨port, hi, ho⟩
    · exact absurd hnil h
    · exact treatmentMapped_of_own hi ho
  · exact treatmentMapped_of_unsupported hs

theorem own_of_treatmentMapped (h : TreatmentMapped platform interpreter treatment piTableId)
    (hs : Supported platform treatment) :
    piTableId = interpreter.tableL2FwdId ∧ treatment.allInstructions ≠ [] := by
  obtain ⟨action, he, hof⟩ := h.mapped hs
  rcases eq_or_ne piTableId interpreter.tableL2FwdId with rfl | hid
  · refine ⟨rfl, fun hnil => ?_⟩
    rw [mapTreatment_nil hnil] at he
    obtain rfl := Except.ok.inj he
    exact nop_not_of_dmac hof
  · rw [mapTreatment_other hid] at he
    cases he

theorem treatment_mapped_iff (platform : Platform P T S B D)
    (interpreter : PipelineInterpreterImpl) (treatment : TrafficTreatment P T)
    (piTableId : PiTableId) :
    TreatmentMapped platform interpreter treatment piTableId ↔
      ¬Supported platform treatment ∨
        (piTableId = interpreter.tableL2FwdId ∧ treatment.allInstructions ≠ []) := by
  constructor
  · intro h
    by_cases hs : Supported platform treatment
    · exact Or.inr (own_of_treatmentMapped h hs)
    · exact Or.inl hs
  · rintro (hs | ⟨rfl, hne⟩)
    · exact treatmentMapped_of_unsupported hs
    · exact treatmentMapped_of_nonempty hne

theorem submitted_rule_refused {L A : Type} {events : List JvmEvent} {jvm : Jvm}
    {pipeliner : PipelinerImpl} {deviceId : D} {obj : ForwardingObjective P T L A}
    {rule : FlowRule P T L A D} (h : Jvm.Runs events jvm)
    (hi : jvm.interpreter = some interpreter) (hp : jvm.pipeliner = some pipeliner)
    (hr : Submits (pipeliner.forward deviceId obj) rule) (treatment : TrafficTreatment P T) :
    interpreter.mapTreatment platform treatment rule.table =
      .error (.piInterpreter "Can map treatments only for 't_l2_fwd' table") := by
  obtain rfl := submitted_rule hr
  exact mapTreatment_other (pipeliner_id_apart h hi hp)

namespace Treatments

def jvm : Jvm := (Jvm.start.step .initInterpreter).step .initPipeliner

def loadedInterpreter : PipelineInterpreterImpl :=
  { tableL2FwdId := PiTableId.of 0 "dmac", named := rfl }

def loadedPipeliner : PipelinerImpl :=
  { ingressTableDmac := PiTableId.of 1 "dmac", named := rfl }

def routed : TrafficTreatment Int64 String := { allInstructions := [.output 1] }

def objective : ForwardingObjective Int64 String Unit Unit :=
  { selector := ()
    treatment := some routed
    appId := ()
    priority := 10
    permanent := true
    timeout := 0
    op := .add
    hasContext := false }

def rule : FlowRule Int64 String Unit Unit Unit := loadedPipeliner.flowRule () objective

theorem runs_jvm : Jvm.Runs [.initPipeliner, .initInterpreter] jvm := .step (.step .start rfl) rfl

theorem forwarded_output_refused :
    Jvm.Runs [.initPipeliner, .initInterpreter] jvm ∧ jvm.interpreter = some loadedInterpreter ∧
      jvm.pipeliner = some loadedPipeliner ∧ Submits (loadedPipeliner.forward () objective) rule ∧
      rule.treatment = some routed ∧ rule.table.equals loadedInterpreter.tableL2FwdId = true ∧
      ¬TreatmentMapped (portNumbers [1]) loadedInterpreter routed rule.table ∧
      ¬TreatmentMapped (portNumbers [1]) loadedInterpreter { allInstructions := [] }
        loadedInterpreter.tableL2FwdId := by
  refine ⟨runs_jvm, rfl, rfl, Or.inl (List.mem_singleton_self _), rfl,
    pipeliner_id_equals loadedInterpreter loadedPipeliner, fun h => ?_, fun h => ?_⟩
  · have hsupported : Supported (portNumbers [1]) routed :=
      Or.inr ⟨1, rfl, Or.inl (by decide)⟩
    have hsame := (own_of_treatmentMapped h hsupported).1
    exact absurd hsame (by decide)
  · exact (own_of_treatmentMapped h (Or.inl rfl)).2 rfl

end Treatments

end Onos
