import T4P4SRuntime.Codegen.AddSpec

namespace Codegen

open Hlir Messages Exec

variable {program : Program} {code : Code} {table : Table} {ks : List KeyElement}
  {layout : RecordLayout} {msg : CtrlMsg} {views : Field → ByteView}

def actionNamed (table : Table) (name : CString) : Option ActionObject :=
  table.actions.find? (fun action => getActionNameStr action = name)

def valueOf (msg : CtrlMsg) (action : ActionObject) : ActionValue :=
  { actionId := action.name, params := (paramCopies action).map (paramValue msg) }

theorem paramsInRange_iff (action : ActionObject) :
    ParamsInRange (paramCopies action) msg ↔ action.parameters.length ≤ msg.actionParams.length := by
  have hidx : (paramCopies action).map ParamCopy.index = List.range action.parameters.length := by
    rw [paramCopies, List.map_map]
    exact List.zipIdx_map_snd 0 action.parameters ▸ List.range_eq_range' ▸ rfl
  rw [ParamsInRange, hidx, Below]
  constructor
  · intro h
    by_contra hlt
    exact absurd (h msg.actionParams.length (List.mem_range.mpr (by omega))) (by omega)
  · intro h i hi
    have hlt := List.mem_range.mp hi
    omega

theorem addTableEntry_eq (hg : Generable ks) (hc : (tableCode program table ks).Compiles) :
    addTableEntry layout code (tableCode program table ks) msg =
      if KeyInRange ks msg then
        match actionNamed table msg.actionName with
        | none => pure ()
        | some action =>
            if ParamsInRange (paramCopies action) msg then
              finishAdd code program table (shownAt layout msg action) (depthOf layout msg ks) ks
                (valueOf msg action)
            else fault .actionParamOutOfBounds
      else fault .fieldMatchOutOfBounds := by
  rw [addTableEntry, runDecls_eq hg]
  by_cases hk : KeyInRange ks msg
  · rw [if_pos hk, if_pos hk, pure_bind]
    have hfind : (tableCode program table ks).entryBranches.find?
        (fun b => b.actionNameStr = msg.actionName) =
          (actionNamed table msg.actionName).map (entryBranch ks) := by
      rw [actionNamed, tableCode, List.find?_map]
      rfl
    rw [hfind]
    cases ha : actionNamed table msg.actionName with
    | none => rfl
    | some action =>
        have hps : (entryBranch ks action).params = paramCopies action := rfl
        simp only [Option.map_some, hps, runParams_eq]
        by_cases hp : ParamsInRange (paramCopies action) msg
        · rw [if_pos hp, if_pos hp, pure_bind, pointersOf_eq, copiedParams_eq,
            runAdd_eq code hg hc (List.mem_of_find?_eq_some ha)]
          rfl
        · rw [if_neg hp, if_neg hp, fault_bind]
  · rw [if_neg hk, if_neg hk, fault_bind]

theorem setDefaultTableAction_eq :
    setDefaultTableAction (tableCode program table ks) msg =
      match actionNamed table msg.actionName with
      | none => pure ()
      | some action =>
          if ParamsInRange (paramCopies action) msg then
            emit (.setdefault table.name (valueOf msg action))
          else fault .actionParamOutOfBounds := by
  have hfind : (tableCode program table ks).defaultBranches.find?
      (fun b => b.actionNameStr = msg.actionName) =
        (actionNamed table msg.actionName).map actionBranch := by
    rw [actionNamed, tableCode, List.find?_map]
    rfl
  rw [setDefaultTableAction, hfind]
  cases ha : actionNamed table msg.actionName with
  | none => rfl
  | some action =>
      have hps : (actionBranch action).params = paramCopies action := rfl
      simp only [Option.map_some, hps, runParams_eq]
      by_cases hp : ParamsInRange (paramCopies action) msg
      · rw [if_pos hp, if_pos hp, pure_bind, copiedParams_eq]
        rfl
      · rw [if_neg hp, if_neg hp, fault_bind]

theorem generate_eq (h : generate program = some code) :
    raises program = false ∧
      code.tables = (tablesWithKeys program).map (fun tk => tableCode program tk.1 tk.2) ∧
      code.reverseBufferSize = ((tablesWithKeys program).map (·.1.keyLengthBytes)).foldr max 0 := by
  rw [generate] at h
  split at h
  · cases h
  · rename_i hr
    obtain rfl := Option.some.inj h
    exact ⟨by simpa using hr, rfl, rfl⟩

theorem mem_tablesWithKeys :
    (table, ks) ∈ tablesWithKeys program ↔ table ∈ program.tables ∧ table.key = some ks := by
  rw [tablesWithKeys, List.mem_filterMap]
  constructor
  · rintro ⟨t, ht, he⟩
    obtain ⟨ks', hk, heq⟩ := Option.map_eq_some_iff.mp he
    obtain ⟨rfl, rfl⟩ := Prod.mk.inj heq
    exact ⟨ht, hk⟩
  · rintro ⟨ht, hk⟩
    exact ⟨table, ht, by simp [hk]⟩

theorem generable_of_generate (h : generate program = some code)
    (hm : (table, ks) ∈ tablesWithKeys program) : Generable ks := by
  have hr := (generate_eq h).1
  simp only [raises, Bool.or_eq_false_iff, List.any_eq_false] at hr
  have hks := hr.2 (table, ks) hm
  simp only [Bool.or_eq_true, not_or, List.any_eq_true, not_exists, not_and] at hks
  exact fun k hk => by simpa using hks.2 k hk

theorem mem_code_tables (h : generate program = some code)
    (hm : (table, ks) ∈ tablesWithKeys program) : tableCode program table ks ∈ code.tables := by
  rw [(generate_eq h).2.1]
  exact List.mem_map_of_mem hm

theorem tablesWithKeys_names (hn : (program.tables.map Table.name).Nodup) :
    ((tablesWithKeys program).map (·.1.name)).Nodup := by
  have hsub : ((tablesWithKeys program).map (·.1)).Sublist program.tables := by
    rw [tablesWithKeys]
    induction program.tables with
    | nil => exact List.Sublist.slnil
    | cons t ts ih =>
        cases hk : t.key with
        | none =>
            rw [List.filterMap_cons_none (by simp [hk])]
            exact ih.cons t
        | some ks =>
            rw [List.filterMap_cons_some (b := (t, ks)) (by simp [hk])]
            exact ih.cons_cons t
  have hmap := hsub.map Table.name
  rw [List.map_map] at hmap
  exact hmap.nodup hn

theorem tableNamed_of_mem (h : generate program = some code)
    (hn : (program.tables.map Table.name).Nodup) (hm : (table, ks) ∈ tablesWithKeys program)
    (hname : msg.tableName = table.name) :
    tableNamed code msg = some (tableCode program table ks) := by
  have hfind := FirstBinding.find?_of_nodup (tablesWithKeys_names hn) hm
  rw [tableNamed, (generate_eq h).2.1, List.find?_map, hname]
  have hpred : ((fun t : TableCode => decide (t.name = table.name)) ∘
      fun tk : Table × List KeyElement => tableCode program tk.1 tk.2) =
        fun tk => decide (tk.1.name = table.name) := rfl
  rw [hpred, hfind]
  rfl

theorem tableNamed_eq_none (h : generate program = some code)
    (hm : ∀ table ks, (table, ks) ∈ tablesWithKeys program → msg.tableName ≠ table.name) :
    tableNamed code msg = none := by
  rw [tableNamed, (generate_eq h).2.1, List.find?_eq_none]
  intro t ht
  obtain ⟨⟨table, ks⟩, hmem, rfl⟩ := List.mem_map.mp ht
  exact fun hd => hm table ks hmem (of_decide_eq_true hd).symm

def copyRanges (program : Program) (ks : List KeyElement) : List (Nat × Nat) :=
  (copyLoop program 0 (sortedKeyElements ks)).1.map (fun c => (c.offset, c.length))

def KeyFits (program : Program) (table : Table) (ks : List KeyElement) : Prop :=
  ∀ r ∈ copyRanges program ks, r.1 + r.2 ≤ keySizeOf program table ks

instance (program : Program) (table : Table) (ks : List KeyElement) :
    Decidable (KeyFits program table ks) := inferInstanceAs (Decidable (∀ r ∈ _, _))

structure Finishes (program : Program) (code : Code) (table : Table) (ks : List KeyElement) :
    Prop where
  promotes : table.matchType ≠ .ternary
  fits : KeyFits program table ks
  reverses : table.matchType = .lpm → byteIdxOf program ks ≤ keySizeOf program table ks ∧
    byteIdxOf program ks ≤ code.reverseBufferSize

theorem writesOf_ranges (fs : List Field) (off : Nat) :
    (writesOf program views off fs).map (fun w => (w.1, w.2.length)) =
      (copyLoop program off (fs.map Prod.fst)).1.map (fun c => (c.offset, c.length)) := by
  induction fs generalizing off with
  | nil => rfl
  | cons f fs ih =>
      cases hs : isSpecial f.1 with
      | true => simp [writesOf, copyLoop, hs, ih]
      | false =>
          rw [List.map_cons, copyLoop_cons hs]
          simp [writesOf, hs, ih, readBytes]

theorem builtKey_eq_none_iff :
    builtKey program table views ks = none ↔ ¬KeyFits program table ks := by
  have hr : (writesOf program views 0 (sortedFields ks)).map (fun w => (w.1, w.2.length)) =
      copyRanges program ks := by
    rw [writesOf_ranges, sortedFields_fst, copyRanges]
  rw [builtKey, Layout.writeAll_eq_none_iff, List.length_replicate]
  constructor
  · rintro ⟨w, hw, hlt⟩ hfits
    have hle := hfits (w.1, w.2.length) (hr ▸ List.mem_map_of_mem hw)
    omega
  · intro h
    rw [KeyFits] at h
    push Not at h
    obtain ⟨r, hmem, hlt⟩ := h
    rw [← hr] at hmem
    obtain ⟨w, hw, rfl⟩ := List.mem_map.mp hmem
    exact ⟨w, hw, hlt⟩

theorem builtKey_length {key : Buffer} (h : builtKey program table views ks = some key) :
    key.length = keySizeOf program table ks := by
  rw [Layout.writeAll_length h, List.length_replicate]

inductive InstallsEntry (table : Table) (value : ActionValue) : Promote → Prop where
  | exact {key : Buffer} : table.matchType = .exact →
      InstallsEntry table value (.exactAdd table.name key value)
  | lpm {key : Buffer} {depth : UInt8} : table.matchType = .lpm →
      InstallsEntry table value (.lpmAdd table.name key depth value)

theorem finishAdd_exact (ht : table.matchType = .exact) {key : Buffer}
    (hkey : builtKey program table views ks = some key) (depth : UInt8) (value : ActionValue) :
    finishAdd code program table views depth ks value =
      ⟨[.exactAdd table.name key value], .ok ()⟩ := by
  simp only [finishAdd, hkey, deref_some, pure_bind, ht]
  rfl

theorem finishAdd_lpm (h : Finishes program code table ks) (ht : table.matchType = .lpm)
    {key : Buffer} (hkey : builtKey program table views ks = some key) (depth : UInt8)
    (value : ActionValue) :
    finishAdd code program table views depth ks value =
      ⟨[.lpmAdd table.name (reversePrefix (byteIdxOf program ks) key) depth value], .ok ()⟩ := by
  obtain ⟨hk, hr⟩ := h.reverses ht
  rw [← builtKey_length hkey] at hk
  simp only [finishAdd, hkey, deref_some, pure_bind, ht, reverseKey_of_fits hk hr]
  rfl

theorem builtKey_of_fits (h : KeyFits program table ks) :
    ∃ key, builtKey program table views ks = some key :=
  Option.ne_none_iff_exists'.mp fun hn => builtKey_eq_none_iff.mp hn h

theorem finishAdd_of_finishes (h : Finishes program code table ks) (depth : UInt8)
    (value : ActionValue) :
    ∃ promote, finishAdd code program table views depth ks value = ⟨[promote], .ok ()⟩ ∧
      InstallsEntry table value promote := by
  obtain ⟨key, hkey⟩ := @builtKey_of_fits program table ks views h.fits
  cases ht : table.matchType with
  | exact => exact ⟨_, finishAdd_exact ht hkey depth value, .exact ht⟩
  | lpm => exact ⟨_, finishAdd_lpm h ht hkey depth value, .lpm ht⟩
  | ternary => exact absurd ht h.promotes

theorem finishAdd_log (h : ¬Finishes program code table ks) (depth : UInt8) (value : ActionValue) :
    (finishAdd code program table views depth ks value).log = [] := by
  cases hkey : builtKey program table views ks with
  | none =>
      simp only [finishAdd, hkey]
      rfl
  | some key =>
      have hfits : KeyFits program table ks := by
        by_contra hn
        simp [builtKey_eq_none_iff.mpr hn] at hkey
      cases ht : table.matchType with
      | exact => exact absurd ⟨by simp [ht], hfits, fun hl => by simp [ht] at hl⟩ h
      | lpm =>
          have hn : ¬(byteIdxOf program ks ≤ key.length ∧
              byteIdxOf program ks ≤ code.reverseBufferSize) := fun hc =>
            h ⟨by simp [ht], hfits, fun _ => builtKey_length hkey ▸ hc⟩
          obtain ⟨f, hf⟩ := reverseKey_faults hn
          simp only [finishAdd, hkey, deref_some, pure_bind, ht, hf]
          rfl
      | ternary =>
          simp only [finishAdd, hkey, deref_some, pure_bind, ht]
          rfl

end Codegen
