import T4P4SRuntime.Device.WriteReport
import T4P4SRuntime.Device.Resolution
import T4P4SRuntime.Switch.L2fwdCode

namespace Switch

open Device Codegen Messages Exec IdMap P4v1

variable {layout : RecordLayout} {program : Hlir.Program} {code : Code} {table : Hlir.Table}
  {ks : List Hlir.KeyElement} {action : Hlir.ActionObject} {msg : CtrlMsg} {dm : DeviceMgr}
  {entry : TableEntry}

-- The names that the tables and actions of a program have in its P4Info.
structure P4Names where
  table : Hlir.Table → CString
  action : Hlir.ActionObject → CString

variable {names : P4Names}

inductive Intended (table : Hlir.Table) (actionId : String) (isDefault : Bool) : Promote → Prop where
  | setdefault {value : ActionValue} : isDefault = true → value.actionId = actionId →
      Intended table actionId isDefault (.setdefault table.name value)
  | exact {key : Buffer} {value : ActionValue} : isDefault = false → table.matchType = .exact →
      value.actionId = actionId → Intended table actionId isDefault (.exactAdd table.name key value)
  | lpm {key : Buffer} {depth : UInt8} {value : ActionValue} : isDefault = false →
      table.matchType = .lpm → value.actionId = actionId →
      Intended table actionId isDefault (.lpmAdd table.name key depth value)
  | ternary {key mask : Buffer} {value : ActionValue} : isDefault = false →
      table.matchType = .ternary → value.actionId = actionId →
      Intended table actionId isDefault (.ternaryAdd table.name key mask value)

def NoSilentLoss (layout : RecordLayout) (program : Hlir.Program) (code : Code)
    (names : P4Names) (dm : DeviceMgr) (entry : TableEntry) : Prop :=
  (∃ log status, tableInsert dm entry = ⟨log, .ok status⟩ ∧ status.ok = true) →
    ∃ elem act actionElem, TableResolves dm entry elem ∧ ActionResolves dm entry act actionElem ∧
      ∃ table ∈ program.tables, names.table table = elem.value ∧
        ∃ action ∈ table.actions, names.action action = actionElem.value ∧
          ∃ promote, installEntry layout code dm entry = ⟨[promote], .ok Status.success⟩ ∧
            Intended table action.name entry.isDefaultAction promote

structure Delivered (program : Hlir.Program) (code : Code) (names : P4Names)
    (entry : TableEntry) (elem : Element) (act : P4v1.Action) (actionElem : Element)
    (table : Hlir.Table) (ks : List Hlir.KeyElement) (action : Hlir.ActionObject) : Prop where
  keyed : (table, ks) ∈ tablesWithKeys program
  p4_name : names.table table = elem.value
  table_name : table.name = elem.value
  selects : actionNamed table actionElem.value = some action
  action_name : ∃ a ∈ table.actions, names.action a = actionElem.value ∧ a.name = action.name
  params : action.parameters.length ≤ act.params.length
  entry : entry.isDefaultAction = false →
    (∀ f ∈ fieldsOf ks, f.2 <
      (entry.matchList.filter (fun m => FieldMatchType.supported m.fieldMatchType)).length) ∧
    Finishes program code table ks

variable {elem actionElem : Element} {act : P4v1.Action}

theorem keyInRange_iff (h : FieldsResolve elem entry.matchList) :
    KeyInRange ks (insertMessage elem actionElem entry act) ↔
      ∀ f ∈ fieldsOf ks, f.2 <
        (entry.matchList.filter (fun m => FieldMatchType.supported m.fieldMatchType)).length := by
  rw [KeyInRange, Below, insertMessage, fieldMatches_length _ h, List.forall_mem_map]

theorem Intended.of_installs {promote : Promote} {value : ActionValue}
    (h : Installs table value (msgType entry) promote) :
    Intended table value.actionId entry.isDefaultAction promote := by
  rw [msgType_eq] at h
  cases hd : entry.isDefaultAction with
  | true =>
      rw [hd, if_pos rfl] at h
      cases h
      exact .setdefault rfl rfl
  | false =>
      rw [hd, if_neg Bool.false_ne_true] at h
      cases h with
      | entry hi =>
          cases hi with
          | exact ht => exact .exact rfl ht rfl
          | lpm ht => exact .lpm rfl ht rfl

theorem Intended.eq_of_installs {promote : Promote} {value : ActionValue} {type : CtrlMsgType}
    {table' : Hlir.Table} {actionId : String} {isDefault : Bool}
    (h : Installs table value type promote) (hi : Intended table' actionId isDefault promote) :
    table'.name = table.name ∧ actionId = value.actionId := by
  cases h with
  | setdefault =>
      generalize hp : Promote.setdefault table.name value = promote at hi
      cases hi with
      | setdefault _ hv =>
          obtain ⟨hn, rfl⟩ := Promote.setdefault.inj hp
          exact ⟨hn.symm, hv.symm⟩
      | exact | lpm | ternary => cases hp
  | entry he =>
      cases he with
      | @exact key ht =>
          generalize hp : Promote.exactAdd table.name key value = promote at hi
          cases hi with
          | exact _ _ hv =>
              obtain ⟨hn, -, rfl⟩ := Promote.exactAdd.inj hp
              exact ⟨hn.symm, hv.symm⟩
          | setdefault | lpm | ternary => cases hp
      | @lpm key depth ht =>
          generalize hp : Promote.lpmAdd table.name key depth value = promote at hi
          cases hi with
          | lpm _ _ hv =>
              obtain ⟨hn, -, -, rfl⟩ := Promote.lpmAdd.inj hp
              exact ⟨hn.symm, hv.symm⟩
          | setdefault | exact | ternary => cases hp

theorem delivered_of_promoted (he : Emits program code) (hc : InsertClean dm entry elem)
    (ha : ActionResolves dm entry act actionElem)
    {table' : Hlir.Table} (hmem : table' ∈ program.tables) (hp4 : names.table table' = elem.value)
    {action' : Hlir.ActionObject} (hact : action' ∈ table'.actions)
    (hname : names.action action' = actionElem.value) {promote : Promote}
    (hlog : (recvFromController layout code (insertMessage elem actionElem entry act)).log =
      [promote]) (hi : Intended table' action'.name entry.isDefaultAction promote) :
    ∃ table ks action, Delivered program code names entry elem act actionElem table ks action := by
  obtain ⟨table, ks, action, hreach⟩ :=
    @reaches_of_log layout code program (insertMessage elem actionElem entry act) he
      (by rw [hlog]; simp)
  obtain ⟨promote', hrecv, hinst⟩ := @recv_of_reaches layout _ _ _ _ _ _ he hreach
    (insertMessage_type_ne elem actionElem entry act)
  obtain rfl : promote' = promote := by simpa [hrecv] using hlog
  obtain ⟨htable, hid⟩ := hi.eq_of_installs hinst
  obtain ⟨hmem', -⟩ := mem_tablesWithKeys.mp hreach.mem
  obtain rfl : table' = table := List.inj_on_of_nodup_map he.table_names hmem hmem' htable
  refine ⟨table', ks, action, hreach.mem, hp4, hreach.table_name.symm, hreach.selects,
    ⟨action', hact, hname, hid⟩, ?_, fun hd => ?_⟩
  · have hp := hreach.params
    rwa [insertMessage, actionParams_length _ (hc.params act actionElem ha)] at hp
  · obtain ⟨hkey, hfin⟩ := hreach.entry (by rw [insertMessage, msgType_eq, hd]; rfl)
    exact ⟨(keyInRange_iff hc.fields).mp hkey, hfin⟩

theorem Delivered.reaches (hc : InsertClean dm entry elem)
    (ha : ActionResolves dm entry act actionElem)
    (h : Delivered program code names entry elem act actionElem table ks action) :
    Reaches program code (insertMessage elem actionElem entry act) table ks action where
  mem := h.keyed
  table_name := h.table_name.symm
  selects := h.selects
  params := by
    rw [insertMessage, actionParams_length _ (hc.params act actionElem ha)]
    exact h.params
  entry := fun htype => by
    have hd : entry.isDefaultAction = false := by
      rw [insertMessage, msgType_eq] at htype
      by_contra hne
      simp [hne] at htype
    exact ⟨(keyInRange_iff hc.fields).mpr (h.entry hd).1, (h.entry hd).2⟩

theorem no_silent_loss_iff (he : Emits program code) :
    NoSilentLoss layout program code names dm entry ↔
      ∀ elem act actionElem, InsertClean dm entry elem → ActionResolves dm entry act actionElem →
        ¬RejectionStands entry.matchList →
        ∃ table ks action,
          Delivered program code names entry elem act actionElem table ks action := by
  rw [NoSilentLoss, tableInsert_succeeds_iff]
  constructor
  · intro h elem act actionElem hc ha hr
    obtain ⟨elem', act', actionElem', ht', ha', table, hmem, hp4, action, hact, hname, promote,
      hinstall, hi⟩ := h ⟨elem, hc, ⟨act, actionElem, ha⟩, hr⟩
    obtain rfl := Option.some.inj (hc.table.symm.trans ht')
    obtain rfl := TableAction.action.inj (ha.1.symm.trans ha'.1)
    obtain rfl := Option.some.inj (ha.2.symm.trans ha'.2)
    rw [installEntry_of_action hc ha hr] at hinstall
    exact delivered_of_promoted he hc ha hmem hp4 hact hname (Exec.mk.inj hinstall).1 hi
  · rintro h ⟨elem, hc, ⟨act, actionElem, ha⟩, hr⟩
    obtain ⟨table, ks, action, hdel⟩ := h elem act actionElem hc ha hr
    obtain ⟨promote, hrecv, hinst⟩ := @recv_of_reaches layout _ _ _ _ _ _ he (hdel.reaches hc ha)
      (insertMessage_type_ne elem actionElem entry act)
    obtain ⟨a, hamem, hname, hid⟩ := hdel.action_name
    refine ⟨elem, act, actionElem, hc.table, ha, table, (mem_tablesWithKeys.mp hdel.keyed).1,
      hdel.p4_name, a, hamem, hname, promote, ?_, ?_⟩
    · rw [installEntry_of_action hc ha hr, hrecv]
    · rw [hid]
      exact Intended.of_installs hinst

namespace SilentLoss

-- The P4Info has no leading dot where the annotation of an absolute name has one.
def withoutDot (name : CString) : CString :=
  ⟨String.ofList (name.val.toList.dropWhile (· = '.')), by
    rw [String.toList_ofList]
    exact fun h => name.property ((List.dropWhile_sublist _).mem h)⟩

def p4Names : P4Names :=
  { table := Hlir.Table.name, action := fun action => withoutDot action.annotationName }

def nestedForward : Hlir.ActionObject :=
  { name := "ingress_forward"
    annotationName := cStr "ingress.forward"
    parameters := [{ name := "port", size := 9 }] }

def nestedTable : Hlir.Table := { L2fwd.dmacTable with actions := [nestedForward] }

def nestedProgram : Hlir.Program := { tables := [nestedTable], metafieldSize := fun _ => 0 }

def nestedCode : Code :=
  { reverseBufferSize := 6, tables := [tableCode nestedProgram nestedTable L2fwd.dmacKey] }

def nestedInfo : P4Config.P4Info :=
  { tables := [{ L2fwd.dmac with actionRefs := [16811908] }]
    actions :=
      [{ preamble := { id := 16811908, name := "ingress.forward" }
         params := [{ id := 1, name := "port", bitwidth := 9 }] }]
    counters := []
    digests := [] }

theorem emits_nestedCode : Emits nestedProgram nestedCode where
  generated := rfl
  table_names := by decide
  compiles := by decide

theorem no_silent_loss_insertForward :
    NoSilentLoss packedLayout L2fwd.program L2fwd.code p4Names L2fwd.server.dm
      L2fwd.insertForward := by
  apply (no_silent_loss_iff L2fwd.builds_code.toEmits).mpr
  intro elem act actionElem hc ha _
  obtain ⟨rfl, rfl, rfl⟩ := L2fwd.insertForward_resolved hc ha
  exact ⟨L2fwd.dmacTable, L2fwd.dmacKey, L2fwd.forwardAction,
    { keyed := by decide
      p4_name := by decide
      table_name := by decide
      selects := by decide
      action_name := ⟨L2fwd.forwardAction, by decide⟩
      params := by decide
      entry := fun _ => ⟨by decide, by decide, by decide, by decide⟩ }⟩

theorem hierarchical_action_lost :
    Reachable 1 (L2fwd.serverAfter nestedInfo) (some nestedInfo) ∧
      Emits nestedProgram nestedCode ∧
      ¬NoSilentLoss packedLayout nestedProgram nestedCode p4Names
        (L2fwd.serverAfter nestedInfo).dm L2fwd.insertForward := by
  refine ⟨?_, emits_nestedCode, fun h => ?_⟩
  · exact L2fwd.reachable_of_served rfl
  · obtain ⟨-, -, -, -, -, -, -, -, -, -, -, promote, he, -⟩ := h ⟨_, Status.success, rfl, rfl⟩
    have hlost : (installEntry packedLayout nestedCode (L2fwd.serverAfter nestedInfo).dm
        L2fwd.insertForward).log = [] := by decide
    rw [he] at hlost
    cases hlost

end SilentLoss

end Switch
