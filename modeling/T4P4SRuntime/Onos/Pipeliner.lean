import T4P4SRuntime.Library.Replay
import T4P4SRuntime.Onos.Interpreter

namespace Onos

structure PipelinerImpl where
  ingressTableDmac : PiTableId
  named : ingressTableDmac.id = "dmac"
  deriving DecidableEq

inductive Operation where
  | add
  | remove
  | other
  deriving DecidableEq, Repr

-- `L` are the traffic selectors and `A` the application ids.
structure ForwardingObjective (P T L A : Type) where
  selector : L
  treatment : Option (TrafficTreatment P T)
  appId : A
  priority : Int32
  permanent : Bool
  timeout : Int32
  op : Operation
  hasContext : Bool

-- What the builder of a rule is given; `build` is a function of ONOS.
structure FlowRule (P T L A D : Type) where
  table : PiTableId
  deviceId : D
  selector : L
  appId : A
  priority : Int32
  timeout : Option Int32
  treatment : Option (TrafficTreatment P T)

inductive ObjectiveError where
  | unsupported
  deriving DecidableEq, Repr

inductive PipelinerEffect (P T L A D : Type) where
  | onError (error : ObjectiveError)
  | applyFlowRules (rule : FlowRule P T L A D)
  | removeFlowRules (rule : FlowRule P T L A D)
  | onSuccess

-- What class initialisation has made so far: the number of `PiTableId` objects and the static
-- fields of the two classes.
structure Jvm where
  made : Nat
  interpreter : Option PipelineInterpreterImpl
  pipeliner : Option PipelinerImpl

def Jvm.start : Jvm := { made := 0, interpreter := none, pipeliner := none }

inductive JvmEvent where
  | initInterpreter
  | initPipeliner
  | tableIdOf (id : String)

-- A class is initialised at its first use only.
def Jvm.step (jvm : Jvm) : JvmEvent → Jvm
  | .initInterpreter =>
      match jvm.interpreter with
      | some _ => jvm
      | none =>
          { jvm with
            made := jvm.made + 1
            interpreter := some { tableL2FwdId := PiTableId.of jvm.made tL2Fwd, named := rfl } }
  | .initPipeliner =>
      match jvm.pipeliner with
      | some _ => jvm
      | none =>
          { jvm with
            made := jvm.made + 1
            pipeliner := some { ingressTableDmac := PiTableId.of jvm.made "dmac", named := rfl } }
  | .tableIdOf _ => { jvm with made := jvm.made + 1 }

def Jvm.Runs : List JvmEvent → Jvm → Prop :=
  Replay.Runs Jvm.start (fun jvm event jvm' => jvm' = jvm.step event)

variable {P T L A D : Type}

def PipelinerImpl.flowRule (pipeliner : PipelinerImpl) (deviceId : D)
    (obj : ForwardingObjective P T L A) : FlowRule P T L A D :=
  { table := pipeliner.ingressTableDmac
    deviceId := deviceId
    selector := obj.selector
    appId := obj.appId
    priority := obj.priority
    timeout := if obj.permanent then none else some obj.timeout
    treatment := obj.treatment }

def PipelinerImpl.forward (pipeliner : PipelinerImpl) (deviceId : D)
    (obj : ForwardingObjective P T L A) : List (PipelinerEffect P T L A D) :=
  -- An objective without a treatment is reported and still turned into a rule.
  (if obj.treatment.isNone && obj.hasContext then [.onError .unsupported] else []) ++
    (match obj.op with
      | .add => [.applyFlowRules (pipeliner.flowRule deviceId obj)]
      | .remove => [.removeFlowRules (pipeliner.flowRule deviceId obj)]
      | .other => []) ++
    (if obj.hasContext then [.onSuccess] else [])

def Submits (effects : List (PipelinerEffect P T L A D)) (rule : FlowRule P T L A D) : Prop :=
  .applyFlowRules rule ∈ effects ∨ .removeFlowRules rule ∈ effects

structure StaticsApart (jvm : Jvm) : Prop where
  interpreter : ∀ interpreter, jvm.interpreter = some interpreter →
    interpreter.tableL2FwdId.serial < jvm.made
  pipeliner : ∀ pipeliner, jvm.pipeliner = some pipeliner →
    pipeliner.ingressTableDmac.serial < jvm.made
  apart : ∀ interpreter pipeliner, jvm.interpreter = some interpreter →
    jvm.pipeliner = some pipeliner →
      pipeliner.ingressTableDmac.serial ≠ interpreter.tableL2FwdId.serial

variable {jvm : Jvm} {events : List JvmEvent} {interpreter : PipelineInterpreterImpl}
  {pipeliner : PipelinerImpl}

theorem staticsApart_start : StaticsApart Jvm.start where
  interpreter := fun _ h => by cases h
  pipeliner := fun _ h => by cases h
  apart := fun _ _ h _ => by cases h

theorem StaticsApart.allocate (h : StaticsApart jvm) :
    StaticsApart { jvm with made := jvm.made + 1 } where
  interpreter := fun interpreter hi => Nat.lt_succ_of_lt (h.interpreter interpreter hi)
  pipeliner := fun pipeliner hp => Nat.lt_succ_of_lt (h.pipeliner pipeliner hp)
  apart := h.apart

theorem staticsApart_step (h : StaticsApart jvm) (event : JvmEvent) :
    StaticsApart (jvm.step event) := by
  cases event with
  | initInterpreter =>
      rw [Jvm.step]
      split
      · exact h
      · exact
          { interpreter := fun interpreter hi => by
              obtain rfl := Option.some.inj hi
              exact Nat.lt_succ_self jvm.made
            pipeliner := h.allocate.pipeliner
            apart := fun interpreter pipeliner hi hp => by
              obtain rfl := Option.some.inj hi
              exact (h.pipeliner pipeliner hp).ne }
  | initPipeliner =>
      rw [Jvm.step]
      split
      · exact h
      · exact
          { interpreter := h.allocate.interpreter
            pipeliner := fun pipeliner hp => by
              obtain rfl := Option.some.inj hp
              exact Nat.lt_succ_self jvm.made
            apart := fun interpreter pipeliner hi hp => by
              obtain rfl := Option.some.inj hp
              exact (h.interpreter interpreter hi).ne' }
  | tableIdOf id => exact h.allocate

theorem staticsApart_of_runs (h : Jvm.Runs events jvm) : StaticsApart jvm :=
  h.invariant staticsApart_start fun jvm event _ hs hstep => by
    rw [hstep]
    exact staticsApart_step hs event

theorem pipeliner_id_equals (interpreter : PipelineInterpreterImpl) (pipeliner : PipelinerImpl) :
    pipeliner.ingressTableDmac.equals interpreter.tableL2FwdId = true := by
  rw [PiTableId.equals, pipeliner.named, interpreter.named]
  exact decide_eq_true rfl

-- Whichever of the two classes is initialised first.
theorem pipeliner_id_apart (h : Jvm.Runs events jvm) (hi : jvm.interpreter = some interpreter)
    (hp : jvm.pipeliner = some pipeliner) :
    pipeliner.ingressTableDmac ≠ interpreter.tableL2FwdId :=
  fun he => (staticsApart_of_runs h).apart interpreter pipeliner hi hp
    (congrArg PiTableId.serial he)

theorem submitted_rule {deviceId : D} {obj : ForwardingObjective P T L A}
    {rule : FlowRule P T L A D} (h : Submits (pipeliner.forward deviceId obj) rule) :
    rule = pipeliner.flowRule deviceId obj := by
  rw [Submits, PipelinerImpl.forward] at h
  cases ho : obj.op with
  | add | remove =>
      cases hc : obj.hasContext <;> cases ht : obj.treatment <;> simpa [ho, hc, ht] using h
  | other => cases hc : obj.hasContext <;> cases ht : obj.treatment <;> simp [ho, hc, ht] at h

end Onos
