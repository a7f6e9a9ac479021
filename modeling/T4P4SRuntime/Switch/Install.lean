import T4P4SRuntime.Codegen.Dispatch
import T4P4SRuntime.Device.InsertSpec

namespace Switch

open Device Codegen Messages Exec IdMap P4v1

inductive SwitchFault where
  | server (fault : Device.Fault)
  | emitted (fault : CodeFault)
  deriving DecidableEq, Repr

def deliver (layout : RecordLayout) (code : Code) : List Effect → Emitted Unit
  | [] => pure ()
  | .cb msg :: effects => do
      recvFromController layout code msg
      deliver layout code effects
  | .getCounterByName _ _ :: effects => deliver layout code effects

-- `table_insert` of a server whose callback is `recv_from_controller`.
def installEntry (layout : RecordLayout) (code : Code) (dm : DeviceMgr) (entry : TableEntry) :
    Exec Promote SwitchFault Status :=
  let inserted := tableInsert dm entry
  let delivered := deliver layout code inserted.log
  ⟨delivered.log,
    match delivered.out with
    | .error f => .error (.emitted f)
    | .ok () =>
        match inserted.out with
        | .error f => .error (.server f)
        | .ok status => .ok status⟩

variable {layout : RecordLayout} {code : Code} {dm : DeviceMgr} {entry : TableEntry}
  {elem actionElem : Element} {action : P4v1.Action} {program : Hlir.Program} {table : Hlir.Table}
  {ks : List Hlir.KeyElement} {act : Hlir.ActionObject} {msg : CtrlMsg}

theorem installEntry_of_action (h : InsertClean dm entry elem)
    (ha : ActionResolves dm entry action actionElem) (hr : ¬RejectionStands entry.matchList) :
    installEntry layout code dm entry =
      let received := recvFromController layout code (insertMessage elem actionElem entry action)
      ⟨received.log,
        match received.out with
        | .error f => .error (.emitted f)
        | .ok () => .ok Status.success⟩ := by
  have hok := matchStatus_ok hr
  have hins := tableInsert_of_action h ha
  rw [hok, if_pos rfl] at hins
  have hdel : deliver layout code [.cb (insertMessage elem actionElem entry action)] =
      recvFromController layout code (insertMessage elem actionElem entry action) := by
    simp [deliver]
  rw [installEntry, hins]
  simp only [hdel]

theorem installEntry_refused (h : Refuses (tableInsert dm entry)) :
    ∃ status, installEntry layout code dm entry = ⟨[], .ok status⟩ ∧ status.ok = false := by
  obtain ⟨status, he, hs⟩ := h
  exact ⟨status, by rw [installEntry, he]; rfl, hs⟩

structure Reaches (program : Hlir.Program) (code : Code) (msg : CtrlMsg) (table : Hlir.Table)
    (ks : List Hlir.KeyElement) (act : Hlir.ActionObject) : Prop where
  mem : (table, ks) ∈ tablesWithKeys program
  table_name : msg.tableName = table.name
  selects : actionNamed table msg.actionName = some act
  params : act.parameters.length ≤ msg.actionParams.length
  entry : msg.type = .addTableEntry → KeyInRange ks msg ∧ Finishes program code table ks

inductive Installs (table : Hlir.Table) (value : ActionValue) : CtrlMsgType → Promote → Prop where
  | setdefault : Installs table value .setDefaultAction (.setdefault table.name value)
  | entry {promote : Promote} : InstallsEntry table value promote →
      Installs table value .addTableEntry promote

theorem recv_entry_shown (he : Emits program code) (h : Reaches program code msg table ks act)
    (ht : msg.type = .addTableEntry) :
    recvFromController layout code msg =
      finishAdd code program table (shownAt layout msg act) (depthOf layout msg ks) ks
        (valueOf msg act) := by
  have htable := tableNamed_of_mem he.generated he.table_names h.mem h.table_name
  have hparams := (paramsInRange_iff act).mpr h.params
  obtain ⟨hkey, -⟩ := h.entry ht
  have hmem := mem_code_tables he.generated h.mem
  rw [recvFromController, ht]
  simp only [ctrlAddTableEntry, htable]
  rw [addTableEntry_eq (generable_of_generate he.generated h.mem) (he.tables _ hmem), if_pos hkey]
  simp only [h.selects]
  rw [if_pos hparams]

theorem recv_entry_of_reaches (hb : Builds program code)
    (h : Reaches program code msg table ks act) (ht : msg.type = .addTableEntry) :
    recvFromController layout code msg =
      finishAdd code program table (bitmapAt layout msg) (depthOf layout msg ks) ks
        (valueOf msg act) := by
  rw [recv_entry_shown hb.toEmits h ht]
  exact finishAdd_unshadowed (generable_of_generate hb.generated h.mem)
    (hb.unshadowed _ (mem_code_tables hb.generated h.mem)) (List.mem_of_find?_eq_some h.selects)
    code _

theorem recv_default_of_reaches (he : Emits program code)
    (h : Reaches program code msg table ks act) (ht : msg.type = .setDefaultAction) :
    recvFromController layout code msg = emit (.setdefault table.name (valueOf msg act)) := by
  have htable := tableNamed_of_mem he.generated he.table_names h.mem h.table_name
  rw [recvFromController, ht]
  simp only [ctrlSetdefault, htable, setDefaultTableAction_eq, h.selects]
  rw [if_pos ((paramsInRange_iff act).mpr h.params)]

theorem recv_of_reaches (he : Emits program code) (h : Reaches program code msg table ks act)
    (htype : msg.type ≠ .ctrlInitialized) :
    ∃ promote, recvFromController layout code msg = ⟨[promote], .ok ()⟩ ∧
      Installs table (valueOf msg act) msg.type promote := by
  cases ht : msg.type with
  | addTableEntry =>
      obtain ⟨promote, hadd, hi⟩ := @finishAdd_of_finishes program code table ks
        (shownAt layout msg act) (h.entry ht).2 (depthOf layout msg ks) (valueOf msg act)
      exact ⟨promote, (recv_entry_shown he h ht).trans hadd, .entry hi⟩
  | setDefaultAction => exact ⟨_, recv_default_of_reaches he h ht, .setdefault⟩
  | ctrlInitialized => exact absurd ht htype

theorem reaches_of_entry_log (he : Emits program code) (hm : (table, ks) ∈ tablesWithKeys program)
    (hname : msg.tableName = table.name)
    (h : (addTableEntry layout code (tableCode program table ks) msg).log ≠ []) :
    ∃ act, Reaches program code msg table ks act := by
  have hmem := mem_code_tables he.generated hm
  rw [addTableEntry_eq (generable_of_generate he.generated hm) (he.tables _ hmem)] at h
  by_cases hkey : KeyInRange ks msg
  · rw [if_pos hkey] at h
    cases ha : actionNamed table msg.actionName with
    | none => simp [ha, pure_def] at h
    | some act =>
        simp only [ha] at h
        by_cases hparams : ParamsInRange (paramCopies act) msg
        · rw [if_pos hparams] at h
          have hfin : Finishes program code table ks := by
            by_contra hn
            exact h (finishAdd_log hn _ _)
          exact ⟨act, hm, hname, ha, (paramsInRange_iff act).mp hparams, fun _ => ⟨hkey, hfin⟩⟩
        · simp [hparams, fault] at h
  · simp [hkey, fault] at h

theorem reaches_of_default_log (hm : (table, ks) ∈ tablesWithKeys program)
    (hname : msg.tableName = table.name) (ht : msg.type = .setDefaultAction)
    (h : (setDefaultTableAction (tableCode program table ks) msg).log ≠ []) :
    ∃ act, Reaches program code msg table ks act := by
  rw [setDefaultTableAction_eq] at h
  cases ha : actionNamed table msg.actionName with
  | none => simp [ha, pure_def] at h
  | some act =>
      simp only [ha] at h
      by_cases hparams : ParamsInRange (paramCopies act) msg
      · exact ⟨act, hm, hname, ha, (paramsInRange_iff act).mp hparams,
          fun hadd => by simp [ht] at hadd⟩
      · simp [hparams, fault] at h

theorem reaches_of_log (he : Emits program code)
    (h : (recvFromController layout code msg).log ≠ []) :
    ∃ table ks act, Reaches program code msg table ks act := by
  by_cases hex : ∃ table ks, (table, ks) ∈ tablesWithKeys program ∧ msg.tableName = table.name
  · obtain ⟨table, ks, hm, hname⟩ := hex
    have htable := tableNamed_of_mem he.generated he.table_names hm hname
    rw [recvFromController] at h
    cases ht : msg.type with
    | addTableEntry =>
        simp only [ht, ctrlAddTableEntry, htable] at h
        exact ⟨table, ks, reaches_of_entry_log he hm hname h⟩
    | setDefaultAction =>
        simp only [ht, ctrlSetdefault, htable] at h
        exact ⟨table, ks, reaches_of_default_log hm hname ht h⟩
    | ctrlInitialized => simp [ht, pure_def] at h
  · have hnone : tableNamed code msg = none := tableNamed_eq_none he.generated
      fun table ks hm hname => hex ⟨table, ks, hm, hname⟩
    rw [recvFromController] at h
    cases ht : msg.type <;> simp [ht, ctrlAddTableEntry, ctrlSetdefault, hnone, pure_def] at h

end Switch
