import T4P4SRuntime.Device.IdKinds
import T4P4SRuntime.Device.ValueBytes
import T4P4SRuntime.Switch.L2fwdCode

namespace Codegen

open Hlir Messages Exec

inductive RecordKind where
  | exact
  | lpm
  | ternary
  deriving DecidableEq, Repr

def recordKind : FieldMatchRecord → RecordKind
  | .exact _ _ _ => .exact
  | .lpm _ _ _ => .lpm
  | .ternary _ _ _ _ => .ternary

-- A cast of `field_matches[index]` to the record type of a kind.
structure FieldRead where
  index : Nat
  kind : RecordKind
  deriving DecidableEq, Repr

def Decl.read : Decl → FieldRead
  | .exactBitmap _ i => { index := i, kind := .exact }
  | .lpmBitmap _ i | .lpmPrefixLength _ i => { index := i, kind := .lpm }

def fieldReads (table : TableCode) : CtrlMsgType → List FieldRead
  | .addTableEntry => table.decls.map Decl.read
  | .setDefaultAction | .ctrlInitialized => []

def branchOf (table : TableCode) (msg : CtrlMsg) : Option ActionBranch :=
  match msg.type with
  | .addTableEntry =>
      (table.entryBranches.find? (fun b => b.actionNameStr = msg.actionName)).map
        EntryBranch.toActionBranch
  | .setDefaultAction => table.defaultBranches.find? (fun b => b.actionNameStr = msg.actionName)
  | .ctrlInitialized => none

def HeldAs (msg : CtrlMsg) (r : FieldRead) : Prop :=
  ∃ rec, msg.fieldMatches[r.index]? = some rec ∧ recordKind rec = r.kind

structure ReadsHeld (table : TableCode) (msg : CtrlMsg) : Prop where
  fields : ∀ r ∈ fieldReads table msg.type, HeldAs msg r
  params : ∀ branch, branchOf table msg = some branch →
    ∀ p ∈ branch.params, p.index < msg.actionParams.length

def castKind : MatchType → RecordKind
  | .exact => .exact
  | .lpm | .ternary => .lpm

variable {program : Program} {code : Code} {table : Table} {ks : List KeyElement}
  {layout : RecordLayout} {msg : CtrlMsg}

theorem read_declsOf {f : Field} (hs : isSpecial f.1 = false) (P : FieldRead → Prop) :
    (∀ d ∈ declsOf f.1 f.2, P d.read) ↔ P { index := f.2, kind := castKind f.1.matchType } := by
  cases hm : f.1.matchType <;> simp [declsOf, hs, hm, Decl.read, castKind]

theorem fieldReads_held_iff :
    (∀ r ∈ (tableCode program table ks).decls.map Decl.read, HeldAs msg r) ↔
      ∀ f ∈ fieldsOf ks, HeldAs msg { index := f.2, kind := castKind f.1.matchType } := by
  rw [decls_eq, List.forall_mem_map, List.forall_mem_flatMap]
  refine forall_congr' fun f => forall_congr' fun hf => ?_
  exact read_declsOf (not_special_of_mem hf) (HeldAs msg)

theorem entryBranch_toActionBranch (ks : List KeyElement) (action : ActionObject) :
    (entryBranch ks action).toActionBranch = actionBranch action := by rw [entryBranch]

theorem actionBranch_actionNameStr (action : ActionObject) :
    (actionBranch action).actionNameStr = getActionNameStr action := by rw [actionBranch]

theorem branchOf_eq (ht : msg.type ≠ .ctrlInitialized) :
    branchOf (tableCode program table ks) msg =
      (actionNamed table msg.actionName).map actionBranch := by
  rw [branchOf, actionNamed, tableCode]
  cases hty : msg.type with
  | addTableEntry =>
      simp only [List.find?_map, Option.map_map, Function.comp_def, entryBranch_toActionBranch,
        actionBranch_actionNameStr]
  | setDefaultAction =>
      simp only [List.find?_map, Function.comp_def, actionBranch_actionNameStr]
  | ctrlInitialized => exact absurd hty ht

theorem paramReads_held_iff (ht : msg.type ≠ .ctrlInitialized) :
    (∀ branch, branchOf (tableCode program table ks) msg = some branch →
        ∀ p ∈ branch.params, p.index < msg.actionParams.length) ↔
      ∀ act, actionNamed table msg.actionName = some act →
        act.parameters.length ≤ msg.actionParams.length := by
  rw [branchOf_eq ht]
  cases ha : actionNamed table msg.actionName with
  | none => simp
  | some act =>
      have hiff := @paramsInRange_iff msg act
      rw [ParamsInRange, Below, List.forall_mem_map] at hiff
      simpa [actionBranch] using hiff

theorem fields_held_iff (ht : msg.type = .addTableEntry) :
    (∀ r ∈ fieldReads (tableCode program table ks) msg.type, HeldAs msg r) ↔
      ∀ f ∈ fieldsOf ks, HeldAs msg { index := f.2, kind := castKind f.1.matchType } := by
  rw [← @fieldReads_held_iff program table ks msg, ht]
  rfl

def handled (code : Code) (program : Program) (table : Table) (layout : RecordLayout)
    (msg : CtrlMsg) (ks : List KeyElement) (act : ActionObject) : Emitted Unit :=
  match msg.type with
  | .addTableEntry =>
      finishAdd code program table (bitmapAt layout msg) (depthOf layout msg ks) ks (valueOf msg act)
  | .setDefaultAction => emit (.setdefault table.name (valueOf msg act))
  | .ctrlInitialized => pure ()

-- What the reads stand for: when the message holds them all, no handler leaves its arrays, and
-- a bitmap read through a cast is the bitmap the record was built with.
theorem recv_of_readsHeld (hb : Builds program code) (hm : (table, ks) ∈ tablesWithKeys program)
    (hname : msg.tableName = table.name) (h : ReadsHeld (tableCode program table ks) msg) :
    recvFromController layout code msg =
      match actionNamed table msg.actionName with
      | none => pure ()
      | some act => handled code program table layout msg ks act := by
  have htable := tableNamed_of_mem hb.generated hb.table_names hm hname
  cases hty : msg.type with
  | ctrlInitialized =>
      simp only [recvFromController, handled, hty]
      cases actionNamed table msg.actionName <;> rfl
  | setDefaultAction =>
      have hparams := (paramReads_held_iff (by simp [hty])).mp h.params
      simp only [recvFromController, handled, hty, ctrlSetdefault, htable, setDefaultTableAction_eq]
      cases ha : actionNamed table msg.actionName with
      | none => rfl
      | some act => simp only [(paramsInRange_iff act).mpr (hparams act ha), if_true]
  | addTableEntry =>
      have hkey : KeyInRange ks msg := by
        rw [KeyInRange, Below, List.forall_mem_map]
        intro f hf
        obtain ⟨rec, hrec, -⟩ := (fields_held_iff hty).mp h.fields f hf
        exact (List.getElem?_eq_some_iff.mp hrec).1
      have hparams := (paramReads_held_iff (by simp [hty])).mp h.params
      simp only [recvFromController, handled, hty, ctrlAddTableEntry, htable]
      rw [addTableEntry_eq (generable_of_generate hb.generated hm)
        (hb.tables _ (mem_code_tables hb.generated hm)), if_pos hkey]
      cases ha : actionNamed table msg.actionName with
      | none => rfl
      | some act =>
          simp only [(paramsInRange_iff act).mpr (hparams act ha), if_true]
          exact finishAdd_unshadowed (generable_of_generate hb.generated hm)
            (hb.unshadowed _ (mem_code_tables hb.generated hm)) (List.mem_of_find?_eq_some ha) code _

def bitmapOf : FieldMatchRecord → Bytes
  | .exact _ _ bitmap | .lpm _ _ bitmap | .ternary _ _ bitmap _ => bitmap

theorem bitmapAt_of_held (hl : layout.Lawful) {f : Field}
    (h : HeldAs msg { index := f.2, kind := castKind f.1.matchType }) :
    ∃ rec, msg.fieldMatches[f.2]? = some rec ∧ bitmapAt layout msg f = viewOf (bitmapOf rec) := by
  obtain ⟨rec, hrec, hk⟩ := h
  refine ⟨rec, hrec, ?_⟩
  rw [bitmapAt, hrec]
  cases hm : f.1.matchType <;> cases rec <;>
    simp_all [castKind, recordKind, bitmapOf, hl.exactBitmap, hl.lpmBitmap]

end Codegen

namespace Switch

open Device Codegen Messages Exec IdMap P4v1

def ReadsOnlyHeld (code : Code) (dm : DeviceMgr) (entry : TableEntry) : Prop :=
  ∀ msg, Effect.cb msg ∈ (tableInsert dm entry).log →
    ∀ table ∈ code.tables, table.name = msg.tableName → ReadsHeld table msg

def MatchIsOf (matchType : Hlir.MatchType) : FieldMatchType → Prop
  | .exact _ => matchType = .exact
  | .lpm _ _ => matchType = .lpm ∨ matchType = .ternary
  | .ternary _ _ | .range _ _ | .other | .notSet => False

structure EntryFillsReads (entry : TableEntry) (action : P4v1.Action) (actionElem : Element)
    (table : Hlir.Table) (ks : List Hlir.KeyElement) : Prop where
  fields : entry.isDefaultAction = false → ∀ f ∈ fieldsOf ks,
    ∃ m, (supportedMatches entry.matchList)[f.2]? = some m ∧
      MatchIsOf f.1.matchType m.fieldMatchType
  params : ∀ act, actionNamed table actionElem.value = some act →
    act.parameters.length ≤ action.params.length

variable {program : Hlir.Program} {code : Code} {table : Hlir.Table} {ks : List Hlir.KeyElement}
  {dm : DeviceMgr} {entry : TableEntry} {elem actionElem : Element} {action : P4v1.Action}
  {msg : CtrlMsg}

theorem cb_mem_iff :
    Effect.cb msg ∈ (tableInsert dm entry).log ↔
      ∃ elem action actionElem, InsertClean dm entry elem ∧
        ActionResolves dm entry action actionElem ∧ ¬RejectionStands entry.matchList ∧
        msg = insertMessage elem actionElem entry action := by
  constructor
  · intro h
    obtain ⟨elem, hc, ⟨action, actionElem, ha⟩, hr⟩ := insertAccepted_of_cb h
    have hok := matchStatus_ok hr
    rw [tableInsert_of_action hc ha, if_pos hok] at h
    exact ⟨elem, action, actionElem, hc, ha, hr, by simpa using h⟩
  · rintro ⟨elem, action, actionElem, hc, ha, hr, rfl⟩
    have hok := matchStatus_ok hr
    rw [tableInsert_of_action hc ha, if_pos hok]
    simp

theorem filterMap_supported (ms : List FieldMatch) :
    ms.filterMap (recordOf elem) = (supportedMatches ms).filterMap (recordOf elem) := by
  induction ms with
  | nil => rfl
  | cons m ms ih =>
      cases hs : FieldMatchType.supported m.fieldMatchType with
      | true =>
          have hsup : supportedMatches (m :: ms) = m :: supportedMatches ms :=
            List.filter_cons_of_pos hs
          rw [hsup, List.filterMap_cons, List.filterMap_cons, ih]
      | false =>
          have hsup : supportedMatches (m :: ms) = supportedMatches ms :=
            List.filter_cons_of_neg (by simp [hs])
          rw [hsup, List.filterMap_cons_none (unsupported_record hs), ih]

theorem record_getElem? (h : FieldsResolve elem entry.matchList) (i : Nat) :
    (insertMessage elem actionElem entry action).fieldMatches[i]? =
      (supportedMatches entry.matchList)[i]?.bind (recordOf elem) := by
  rw [insertMessage, filterMap_supported]
  refine filterMap_getElem? (fun m hm => ?_) i
  obtain ⟨hmem, hs⟩ := List.mem_filter.mp hm
  exact supported_record (h m hmem) hs

theorem recordKind_iff {m : FieldMatch} {rec : FieldMatchRecord} (h : recordOf elem m = some rec)
    (matchType : Hlir.MatchType) :
    recordKind rec = castKind matchType ↔ MatchIsOf matchType m.fieldMatchType := by
  obtain ⟨arg, -, hrule⟩ := Option.bind_eq_some_iff.mp h
  cases ht : m.fieldMatchType with
  | exact value =>
      rw [ht] at hrule
      obtain rfl := Option.some.inj hrule
      cases matchType <;> simp [genMatchRuleExact, recordKind, castKind, MatchIsOf]
  | lpm value prefixLen =>
      rw [ht] at hrule
      obtain rfl := Option.some.inj hrule
      cases matchType <;> simp [genMatchRuleLpm, recordKind, castKind, MatchIsOf]
  | ternary value mask =>
      rw [ht] at hrule
      obtain rfl := Option.some.inj hrule
      cases matchType <;> simp [genMatchRuleTernary, recordKind, castKind, MatchIsOf]
  | range | other | notSet =>
      rw [ht] at hrule
      cases hrule

theorem heldAs_iff (h : FieldsResolve elem entry.matchList) (i : Nat)
    (matchType : Hlir.MatchType) :
    HeldAs (insertMessage elem actionElem entry action)
        { index := i, kind := castKind matchType } ↔
      ∃ m, (supportedMatches entry.matchList)[i]? = some m ∧
        MatchIsOf matchType m.fieldMatchType := by
  rw [HeldAs, record_getElem? h]
  constructor
  · rintro ⟨rec, hget, hk⟩
    obtain ⟨m, hm, hrec⟩ := Option.bind_eq_some_iff.mp hget
    exact ⟨m, hm, (recordKind_iff hrec matchType).mp hk⟩
  · rintro ⟨m, hm, hof⟩
    obtain ⟨hmem, hs⟩ := List.mem_filter.mp (List.mem_of_getElem? hm)
    obtain ⟨rec, hrec⟩ := Option.ne_none_iff_exists'.mp (supported_record (h m hmem) hs)
    exact ⟨rec, by rw [hm, Option.bind_some, hrec], (recordKind_iff hrec matchType).mpr hof⟩

theorem readsHeld_iff (hc : InsertClean dm entry elem)
    (ha : ActionResolves dm entry action actionElem) :
    ReadsHeld (tableCode program table ks) (insertMessage elem actionElem entry action) ↔
      EntryFillsReads entry action actionElem table ks := by
  have htype := insertMessage_type_ne elem actionElem entry action
  have hlen : (insertMessage elem actionElem entry action).actionParams.length =
      action.params.length := actionParams_length _ (hc.params action actionElem ha)
  have hparams := @paramReads_held_iff program table ks _ htype
  rw [hlen] at hparams
  constructor
  · intro h
    refine ⟨fun hd f hf => ?_, hparams.mp (hlen ▸ h.params)⟩
    have hadd : (insertMessage elem actionElem entry action).type = .addTableEntry := by
      simp [insertMessage, msgType, hd]
    exact (heldAs_iff hc.fields f.2 f.1.matchType).mp ((fields_held_iff hadd).mp h.fields f hf)
  · intro h
    refine ⟨?_, hlen ▸ hparams.mpr h.params⟩
    cases hd : entry.isDefaultAction with
    | true =>
        have hdef : (insertMessage elem actionElem entry action).type = .setDefaultAction := by
          simp [insertMessage, msgType, hd]
        rw [hdef]
        exact fun r hr => absurd hr List.not_mem_nil
    | false =>
        have hadd : (insertMessage elem actionElem entry action).type = .addTableEntry := by
          simp [insertMessage, msgType, hd]
        apply (fields_held_iff hadd).mpr
        intro f hf
        exact (heldAs_iff hc.fields f.2 f.1.matchType).mpr (h.fields hd f hf)

theorem reads_only_held_iff (he : Emits program code) :
    ReadsOnlyHeld code dm entry ↔
      ∀ elem action actionElem table ks, InsertClean dm entry elem →
        ActionResolves dm entry action actionElem → ¬RejectionStands entry.matchList →
        (table, ks) ∈ tablesWithKeys program → table.name = elem.value →
        EntryFillsReads entry action actionElem table ks := by
  constructor
  · intro h elem action actionElem table ks hc ha hr hm hname
    have hheld := h _ (cb_mem_iff.mpr ⟨elem, action, actionElem, hc, ha, hr, rfl⟩) _
      (mem_code_tables he.generated hm) hname
    exact (readsHeld_iff hc ha).mp hheld
  · intro h msg hmsg table ht hname
    obtain ⟨elem, action, actionElem, hc, ha, hr, rfl⟩ := cb_mem_iff.mp hmsg
    rw [(generate_eq he.generated).2.1] at ht
    obtain ⟨⟨table, ks⟩, hm, rfl⟩ := List.mem_map.mp ht
    exact (readsHeld_iff hc ha).mpr (h elem action actionElem table ks hc ha hr hm hname)

namespace RecordReads

theorem reads_only_held_insertForward :
    ReadsOnlyHeld L2fwd.code L2fwd.server.dm L2fwd.insertForward := by
  apply (reads_only_held_iff L2fwd.builds_code.toEmits).mpr
  intro elem action actionElem table ks hc ha _ hm _
  obtain ⟨rfl, rfl, rfl⟩ := L2fwd.insertForward_resolved hc ha
  obtain ⟨rfl, rfl⟩ := Prod.mk.inj (List.mem_singleton.mp hm)
  refine ⟨fun _ f hf => ?_, fun act hact => ?_⟩
  · obtain rfl := List.mem_singleton.mp hf
    exact ⟨_, rfl, rfl⟩
  · obtain rfl := Option.some.inj hact
    decide

def bareInsert : TableEntry := { L2fwd.insertForward with matchList := [] }

def bareMessage : CtrlMsg :=
  { type := .addTableEntry
    tableName := cStr "dmac"
    fieldMatches := []
    actionName := cStr "forward"
    actionParams := [{ name := cStr "port", length := 9, bitmap := [0, 3] }] }

theorem bare_insert_reads_past_end :
    Effect.cb bareMessage ∈ (tableInsert L2fwd.server.dm bareInsert).log ∧
      ¬ReadsOnlyHeld L2fwd.code L2fwd.server.dm bareInsert := by
  have hcb : Effect.cb bareMessage ∈ (tableInsert L2fwd.server.dm bareInsert).log := by decide
  refine ⟨hcb, fun h => ?_⟩
  have hreads := h _ hcb _ (List.mem_singleton_self _) rfl
  obtain ⟨rec, hrec, -⟩ := hreads.fields { index := 0, kind := .exact } (by decide)
  cases hrec

end RecordReads

end Switch
