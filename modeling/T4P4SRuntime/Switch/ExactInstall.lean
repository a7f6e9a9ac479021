import T4P4SRuntime.Device.Resolution
import T4P4SRuntime.Switch.L2fwdCode

namespace Switch

open Device Codegen Messages Exec IdMap P4v1 Layout

variable {layout : RecordLayout} {program : Hlir.Program} {code : Code} {table : Hlir.Table}
  {ks : List Hlir.KeyElement} {action : Hlir.ActionObject} {p4table : P4Config.Table}
  {p4action : P4Config.Action} {dm : DeviceMgr} {entry : TableEntry} {act : P4v1.Action}
  {values : List Bytes} {views : Field → ByteView}

-- `key_length` and `match_type` are what hlir16 computes for such a table.
structure ExactTable (program : Hlir.Program) (table : Hlir.Table) (ks : List Hlir.KeyElement) :
    Prop where
  mem : table ∈ program.tables
  key : table.key = some ks
  header : ∀ k ∈ ks, ∃ h, k.header = some h ∧ h.isVw = false
  field : ∀ k ∈ ks, isMeta k = false
  exact : ∀ k ∈ ks, k.matchType = .exact
  distinct : (ks.map (fun k => (k.headerName, k.fieldName))).Nodup
  action_names : (table.actions.map getActionNameStr).Nodup
  key_length : table.keyLengthBytes = (ks.map getKeyByteWidth).sum
  match_type : table.matchType = .exact

structure Describes (p4table : P4Config.Table) (p4action : P4Config.Action) (table : Hlir.Table)
    (ks : List Hlir.KeyElement) (action : Hlir.ActionObject) : Prop where
  table_name : cStr p4table.preamble.name = table.name
  fields : p4table.matchFields.length = ks.length
  action_mem : action ∈ table.actions
  action_name : cStr p4action.preamble.name = getActionNameStr action
  params : p4action.params.length = action.parameters.length

structure ResolvesTo (dm : DeviceMgr) (p4table : P4Config.Table) (p4action : P4Config.Action) :
    Prop where
  table : ∃ elem, getElement dm.idMap p4table.preamble.id.toUInt64 = some elem ∧
    Resolved elem (tableDecl p4table)
  action : ∃ elem, getElement dm.idMap p4action.preamble.id.toUInt64 = some elem ∧
    Resolved elem (actionDecl p4action)

structure CompleteInsert (p4table : P4Config.Table) (p4action : P4Config.Action)
    (ks : List Hlir.KeyElement) (action : Hlir.ActionObject) (entry : TableEntry)
    (act : P4v1.Action) (values : List Bytes) : Prop where
  non_default : entry.isDefaultAction = false
  table_id : entry.tableId = p4table.preamble.id
  action_id : act.actionId = p4action.preamble.id
  direct : entry.action = .action act
  fields : entry.matchList.map FieldMatch.fieldId = p4table.matchFields.map P4Config.FieldDecl.id
  exact : entry.matchList.map FieldMatch.fieldMatchType = values.map .exact
  widths : values.map List.length = ks.map getKeyByteWidth
  params : act.params.map Param.paramId = p4action.params.map P4Config.FieldDecl.id
  sizes : act.params.map (fun p => p.value.length) =
    action.parameters.map (fun q => (q.size + 7) / 8)
  unswapped : ∀ p ∈ act.params, ∀ f ∈ p4action.params, f.id = p.paramId →
    (cStr f.name).val = "type" → p.value.length ≠ 2

def givenValue (action : Hlir.ActionObject) (act : P4v1.Action) : ActionValue :=
  { actionId := action.name
    params := List.zipWith (fun q p => (q.name, p.value.map some)) action.parameters act.params }

-- A parameter pointer with the name of a key field's variable is passed on in its place.
def KeyNamesFree (ks : List Hlir.KeyElement) (values : List Bytes) (action : Hlir.ActionObject)
    (act : P4v1.Action) : Prop :=
  ∀ kv ∈ ks.zip values, ∀ qp ∈ action.parameters.zip act.params,
    qp.1.name = valueVar kv.1 → kv.2 <+: qp.2.value

instance (ks : List Hlir.KeyElement) (values : List Bytes) (action : Hlir.ActionObject)
    (act : P4v1.Action) : Decidable (KeyNamesFree ks values action act) :=
  inferInstanceAs (Decidable (∀ kv ∈ _, ∀ qp ∈ _, _))

theorem readBytes_viewOf (bytes : Bytes) : readBytes (viewOf bytes) bytes.length = bytes.map some := by
  apply List.ext_getElem (by simp [readBytes])
  intro i hi _
  simp only [readBytes, List.length_map, List.length_range] at hi
  simp [readBytes, viewOf, hi]

theorem ExactTable.not_special (h : ExactTable program table ks) :
    ∀ k ∈ ks, isSpecial k = false := by
  intro k hk
  obtain ⟨header, hh, -⟩ := h.header k hk
  simp [isSpecial, hh]

theorem ExactTable.fieldsOf (h : ExactTable program table ks) : Codegen.fieldsOf ks = ks.zipIdx := by
  apply List.filter_eq_self.mpr
  intro f hf
  have hs := h.not_special f.1 (List.fst_mem_of_mem_zipIdx hf)
  simp [hs]

theorem ExactTable.sorted (h : ExactTable program table ks) : sortedFields ks = ks.zipIdx := by
  refine List.Pairwise.insertionSort_eq (List.pairwise_of_forall_mem_list fun f hf g hg => ?_)
  rw [h.exact f.1 (List.fst_mem_of_mem_zipIdx hf), h.exact g.1 (List.fst_mem_of_mem_zipIdx hg)]

theorem readBytes_length (view : ByteView) (n : Nat) : (readBytes view n).length = n := by
  simp [readBytes]

theorem writesOf_eq_segments (fs : List Field) (off : Nat)
    (hs : ∀ f ∈ fs, isSpecial f.1 = false) (hm : ∀ f ∈ fs, isMeta f.1 = false) :
    writesOf program views off fs =
      segments off (fs.map (fun f => readBytes (views f) (getKeyByteWidth f.1))) := by
  induction fs generalizing off with
  | nil => rfl
  | cons f fs ih =>
      have hrest := ih (off + getKeyByteWidth f.1) (fun g hg => hs g (by simp [hg]))
        (fun g hg => hm g (by simp [hg]))
      have hw : byteWidth program f.1 = getKeyByteWidth f.1 := by simp [byteWidth, hm f (by simp)]
      have hstep : step f.1 = getKeyByteWidth f.1 := by simp [step, hm f (by simp)]
      rw [writesOf, hs f (by simp), if_neg Bool.false_ne_true, hw, hstep, hrest, List.map_cons,
        segments, readBytes_length]

def fieldBytes (views : Field → ByteView) (ks : List Hlir.KeyElement) : List Buffer :=
  ks.zipIdx.map (fun f => readBytes (views f) (getKeyByteWidth f.1))

theorem fieldBytes_lengths (views : Field → ByteView) (ks : List Hlir.KeyElement) :
    (fieldBytes views ks).map List.length = ks.map getKeyByteWidth := by
  rw [fieldBytes, List.map_map, ← List.zipIdx_map_fst 0 ks, List.map_map, List.zipIdx_map_fst]
  exact List.map_congr_left fun f _ => readBytes_length (views f) _

theorem ExactTable.keySize (h : ExactTable program table ks) :
    keySizeOf program table ks = (ks.map getKeyByteWidth).sum := by
  cases hks : ks with
  | nil => simp [keySizeOf, h.key_length, hks]
  | cons k rest =>
      have hm := h.field k (by simp [hks])
      simp [keySizeOf, hm, h.key_length, hks]

theorem getElem_of_map_eq {A B C : Type} {f : A → C} {g : B → C} {l : List A} {m : List B}
    (h : l.map f = m.map g) {i : Nat} (hl : i < l.length) (hm : i < m.length) :
    f l[i] = g m[i] := by
  have hi := congrArg (fun xs => xs[i]?) h
  simpa only [List.getElem?_map, List.getElem?_eq_getElem hl, List.getElem?_eq_getElem hm,
    Option.map_some, Option.some.injEq] using hi

theorem ExactTable.builtKey (h : ExactTable program table ks) (views : Field → ByteView) :
    Codegen.builtKey program table views ks = some (fieldBytes views ks).flatten := by
  have hsum : (fieldBytes views ks).flatten.length = keySizeOf program table ks := by
    rw [List.length_flatten, fieldBytes_lengths, h.keySize]
  rw [Codegen.builtKey, h.sorted, writesOf_eq_segments ks.zipIdx 0
    (fun f hf => h.not_special f.1 (List.fst_mem_of_mem_zipIdx hf))
    (fun f hf => h.field f.1 (List.fst_mem_of_mem_zipIdx hf))]
  exact writeAll_segments_fill _ hsum

theorem ExactTable.finishes (h : ExactTable program table ks) : Finishes program code table ks where
  promotes := by simp [h.match_type]
  fits := by
    by_contra hn
    have hnone := (@builtKey_eq_none_iff program table ks fun _ _ => none).mpr hn
    rw [h.builtKey] at hnone
    cases hnone
  reverses := fun hlpm => by simp [h.match_type] at hlpm

theorem ExactTable.bitmap_at (h : ExactTable program table ks) (hl : layout.Lawful) {msg : CtrlMsg}
    (hrec : ∀ (i : Nat) v, values[i]? = some v →
      ∃ name length, msg.fieldMatches[i]? = some (FieldMatchRecord.exact name length v))
    {i : Nat} (hk : i < ks.length) (hv : i < values.length) :
    bitmapAt layout msg (ks[i], i) = viewOf values[i] := by
  obtain ⟨name, length, hget⟩ := hrec i values[i] (List.getElem?_eq_getElem hv)
  have hex := h.exact ks[i] (List.getElem_mem hk)
  simp only [bitmapAt, hget, hex, hl.exactBitmap]

theorem CompleteInsert.matches (h : CompleteInsert p4table p4action ks action entry act values)
    (i : Nat) (v : Bytes) (hv : values[i]? = some v) :
    ∃ m, entry.matchList[i]? = some m ∧ m.fieldMatchType = .exact v := by
  have hi := congrArg (fun l => l[i]?) h.exact
  simp only [List.getElem?_map, hv, Option.map_some] at hi
  exact Option.map_eq_some_iff.mp hi

theorem CompleteInsert.all_exact (h : CompleteInsert p4table p4action ks action entry act values)
    {m : FieldMatch} (hm : m ∈ entry.matchList) : ∃ v, m.fieldMatchType = .exact v := by
  have hmem := List.mem_map_of_mem (f := FieldMatch.fieldMatchType) hm
  rw [h.exact] at hmem
  obtain ⟨v, -, hv⟩ := List.mem_map.mp hmem
  exact ⟨v, hv.symm⟩

theorem CompleteInsert.not_rejected
    (h : CompleteInsert p4table p4action ks action entry act values) :
    ¬RejectionStands entry.matchList :=
  not_rejectionStands_of_supported fun m hm => by
    obtain ⟨v, hv⟩ := h.all_exact hm
    simp [FieldMatchType.supported, hv]

theorem argument_of_declared {elem : Element} {d : Device.Decl} (hr : Resolved elem d) {id : UInt32}
    (h : id ∈ d.args.map P4Config.FieldDecl.id) :
    ∃ arg, getArgument elem id.toUInt64 = some arg := by
  obtain ⟨f, hf, rfl⟩ := List.mem_map.mp h
  obtain ⟨arg, ha, -⟩ := hr.declared f hf
  exact ⟨arg, ha⟩

theorem CompleteInsert.fields_resolve
    (h : CompleteInsert p4table p4action ks action entry act values) {elem : Element}
    (hr : Resolved elem (tableDecl p4table)) {m : FieldMatch} (hm : m ∈ entry.matchList) :
    ∃ arg, getArgument elem m.fieldId.toUInt64 = some arg := by
  apply argument_of_declared hr
  have hmem := List.mem_map_of_mem (f := FieldMatch.fieldId) hm
  rwa [h.fields] at hmem

theorem CompleteInsert.params_resolve
    (h : CompleteInsert p4table p4action ks action entry act values) {actionElem : Element}
    (hr : Resolved actionElem (actionDecl p4action)) {p : Param} (hp : p ∈ act.params) :
    ∃ arg, getArgument actionElem p.paramId.toUInt64 = some arg := by
  apply argument_of_declared hr
  have hmem := List.mem_map_of_mem (f := Param.paramId) hp
  rwa [h.params] at hmem

theorem CompleteInsert.clean (h : CompleteInsert p4table p4action ks action entry act values)
    {elem actionElem : Element}
    (ht : getElement dm.idMap p4table.preamble.id.toUInt64 = some elem)
    (hr : Resolved elem (tableDecl p4table))
    (ha : getElement dm.idMap p4action.preamble.id.toUInt64 = some actionElem)
    (hra : Resolved actionElem (actionDecl p4action)) :
    InsertClean dm entry elem ∧ ActionResolves dm entry act actionElem := by
  have hact : ActionResolves dm entry act actionElem := ⟨h.direct, by rw [h.action_id]; exact ha⟩
  refine ⟨⟨by rw [TableResolves, h.table_id]; exact ht, fun m hm _ => ?_, ?_⟩, hact⟩
  · obtain ⟨arg, harg⟩ := h.fields_resolve hr hm
    simp [harg]
  · rintro act' actionElem' ⟨hd, he⟩ p hp
    obtain rfl := TableAction.action.inj (h.direct.symm.trans hd)
    obtain rfl := Option.some.inj (hact.2.symm.trans he)
    obtain ⟨arg, harg⟩ := h.params_resolve hra hp
    simp [harg]

theorem CompleteInsert.records (h : CompleteInsert p4table p4action ks action entry act values)
    {elem : Element} (actionElem : Element) (hr : Resolved elem (tableDecl p4table)) (i : Nat)
    (v : Bytes) (hv : values[i]? = some v) :
    ∃ name length, (insertMessage elem actionElem entry act).fieldMatches[i]? =
      some (FieldMatchRecord.exact name length v) := by
  have hall : ∀ m ∈ entry.matchList, recordOf elem m ≠ none := by
    intro m hm
    obtain ⟨arg, harg⟩ := h.fields_resolve hr hm
    obtain ⟨w, hw⟩ := h.all_exact hm
    simp [recordOf, harg, hw, ruleOf]
  obtain ⟨m, hm, hmt⟩ := h.matches i v hv
  obtain ⟨arg, harg⟩ := h.fields_resolve hr (List.mem_of_getElem? hm)
  refine ⟨arg.name, arg.bitwidth, ?_⟩
  rw [insertMessage, filterMap_getElem? hall, hm]
  simp [recordOf, harg, hmt, ruleOf, genMatchRuleExact]

theorem CompleteInsert.params_found
    (h : CompleteInsert p4table p4action ks action entry act values) {actionElem : Element}
    (hr : Resolved actionElem (actionDecl p4action)) :
    ∀ p ∈ act.params, paramOf actionElem p ≠ none := by
  intro p hp
  obtain ⟨arg, harg⟩ := h.params_resolve hr hp
  simp [paramOf, harg]

theorem CompleteInsert.param_records
    (h : CompleteInsert p4table p4action ks action entry act values) (elem : Element)
    {actionElem : Element} (hr : Resolved actionElem (actionDecl p4action)) (j : Nat) (p : Param)
    (hp : act.params[j]? = some p) :
    (insertMessage elem actionElem entry act).actionParams[j]?.map ActionParameter.bitmap =
      some p.value := by
  have hall := h.params_found hr
  have hmem := List.mem_of_getElem? hp
  obtain ⟨arg, harg⟩ := h.params_resolve hr hmem
  have hbits : (genActionParam arg p).bitmap = p.value := by
    rw [genActionParam]
    split
    · rename_i htype
      obtain ⟨f, hf, hid, hname⟩ : ∃ f ∈ p4action.params, f.id = p.paramId ∧ cStr f.name = arg.name := by
        have hfind := getArgument_triple actionElem p.paramId.toUInt64
        rw [hr.args, harg, Option.map_some] at hfind
        have hmem' := List.mem_of_find?_eq_some hfind.symm
        obtain ⟨f, hf, heq⟩ := List.mem_map.mp hmem'
        have hid := List.find?_some hfind.symm
        obtain ⟨hfid, hfname, -⟩ : f.id.toUInt64 = arg.id ∧ cStr f.name = arg.name ∧
            storedBitwidth f = arg.bitwidth := by simpa using heq
        refine ⟨f, hf, toUInt64_injective ?_, hfname⟩
        rw [hfid]
        simpa using hid
      have hlen := h.unswapped p hmem f hf hid (by rw [hname]; exact htype)
      simp [hlen]
    · rfl
  rw [insertMessage, filterMap_getElem? hall, hp]
  simp [paramOf, harg, hbits]

theorem CompleteInsert.key_in_range (ht : ExactTable program table ks)
    (h : CompleteInsert p4table p4action ks action entry act values) {elem actionElem : Element}
    (hr : Resolved elem (tableDecl p4table)) :
    KeyInRange ks (insertMessage elem actionElem entry act) := by
  intro i hi
  rw [ht.fieldsOf, List.zipIdx_map_snd] at hi
  have hlt := List.mem_range'_1.mp hi
  have hks : values.length = ks.length := by simpa using congrArg List.length h.widths
  have hv : values[i]? = some values[i] := List.getElem?_eq_getElem (by omega)
  obtain ⟨name, length, hget⟩ := h.records actionElem hr i values[i] hv
  exact (List.getElem?_eq_some_iff.mp hget).1

theorem CompleteInsert.params_length
    (h : CompleteInsert p4table p4action ks action entry act values) :
    act.params.length = action.parameters.length := by
  simpa using congrArg List.length h.sizes

theorem CompleteInsert.value (h : CompleteInsert p4table p4action ks action entry act values)
    {elem actionElem : Element} (hr : Resolved actionElem (actionDecl p4action)) :
    valueOf (insertMessage elem actionElem entry act) action = givenValue action act := by
  have hlen := h.params_length
  rw [valueOf, givenValue, ActionValue.mk.injEq]
  refine ⟨rfl, List.ext_getElem (by simp [paramCopies, hlen]) fun j hj _ => ?_⟩
  have hq : j < action.parameters.length := by simpa [paramCopies] using hj
  have hp : j < act.params.length := by omega
  have hbits := h.param_records elem hr j act.params[j] (List.getElem?_eq_getElem hp)
  have hsize : (action.parameters[j].size + 7) / 8 = act.params[j].value.length :=
    (getElem_of_map_eq h.sizes hp hq).symm
  simp only [List.getElem_map, List.getElem_zipWith, paramCopies, List.getElem_zipIdx, Nat.zero_add,
    paramValue, paramView, hbits, Option.getD_some, hsize, readBytes_viewOf]

theorem CompleteInsert.params_in_range
    (h : CompleteInsert p4table p4action ks action entry act values) (elem : Element)
    {actionElem : Element} (hr : Resolved actionElem (actionDecl p4action)) :
    ParamsInRange (paramCopies action) (insertMessage elem actionElem entry act) := by
  have hall := h.params_found hr
  rw [paramsInRange_iff, ← h.params_length, insertMessage]
  exact (filterMap_length hall).ge

theorem CompleteInsert.reaches (ht : ExactTable program table ks)
    (hd : Describes p4table p4action table ks action)
    (h : CompleteInsert p4table p4action ks action entry act values) {elem actionElem : Element}
    (hre : Resolved elem (tableDecl p4table)) (hra : Resolved actionElem (actionDecl p4action)) :
    Reaches program code (insertMessage elem actionElem entry act) table ks action where
  mem := mem_tablesWithKeys.mpr ⟨ht.mem, ht.key⟩
  table_name := hre.name.trans hd.table_name
  selects := by
    have hname : actionElem.value = getActionNameStr action := hra.name.trans hd.action_name
    rw [insertMessage, hname]
    exact FirstBinding.find?_of_nodup ht.action_names hd.action_mem
  params := (paramsInRange_iff action).mp (h.params_in_range elem hra)
  entry := fun _ => ⟨h.key_in_range ht hre, ht.finishes⟩

theorem CompleteInsert.adds (h : CompleteInsert p4table p4action ks action entry act values)
    (elem actionElem : Element) :
    (insertMessage elem actionElem entry act).type = .addTableEntry := by
  simp [insertMessage, msgType, h.non_default]

theorem CompleteInsert.values_length
    (h : CompleteInsert p4table p4action ks action entry act values) :
    values.length = ks.length := by
  simpa using congrArg List.length h.widths

theorem CompleteInsert.bitmap_at (h : CompleteInsert p4table p4action ks action entry act values)
    (ht : ExactTable program table ks) (hl : layout.Lawful) {elem : Element}
    (actionElem : Element) (hre : Resolved elem (tableDecl p4table)) {i : Nat} (hk : i < ks.length)
    (hv : i < values.length) :
    bitmapAt layout (insertMessage elem actionElem entry act) (ks[i], i) = viewOf values[i] :=
  ht.bitmap_at hl (h.records actionElem hre) hk hv

theorem CompleteInsert.width_at (h : CompleteInsert p4table p4action ks action entry act values)
    {i : Nat} (hk : i < ks.length) (hv : i < values.length) :
    getKeyByteWidth ks[i] = values[i].length :=
  (getElem_of_map_eq h.widths hv hk).symm

theorem CompleteInsert.field_bytes (h : CompleteInsert p4table p4action ks action entry act values)
    (ht : ExactTable program table ks) (hl : layout.Lawful) {elem : Element}
    (actionElem : Element) (hre : Resolved elem (tableDecl p4table)) :
    fieldBytes (bitmapAt layout (insertMessage elem actionElem entry act)) ks =
      values.map (·.map some) := by
  have hlen := h.values_length
  apply List.ext_getElem (by simp [fieldBytes, hlen])
  intro i hi hi'
  have hv : i < values.length := by simpa using hi'
  have hk : i < ks.length := by omega
  simp only [fieldBytes, List.getElem_map, List.getElem_zipIdx, Nat.zero_add,
    h.bitmap_at ht hl actionElem hre hk hv, h.width_at hk hv, readBytes_viewOf]

theorem CompleteInsert.received (h : CompleteInsert p4table p4action ks action entry act values)
    (hl : layout.Lawful) (hb : Builds program code) (ht : ExactTable program table ks)
    (hd : Describes p4table p4action table ks action) {elem actionElem : Element}
    (hre : Resolved elem (tableDecl p4table)) (hra : Resolved actionElem (actionDecl p4action)) :
    recvFromController layout code (insertMessage elem actionElem entry act) =
      ⟨[.exactAdd table.name (values.flatten.map some) (givenValue action act)], .ok ()⟩ := by
  rw [recv_entry_of_reaches hb (h.reaches ht hd hre hra) (h.adds elem actionElem),
    finishAdd_exact ht.match_type (ht.builtKey _), h.field_bytes ht hl actionElem hre, h.value hra,
    List.map_flatten]

-- The promote call of an entry whose program may have parameters named as key variables.
theorem CompleteInsert.received_shown
    (h : CompleteInsert p4table p4action ks action entry act values) (he : Emits program code)
    (ht : ExactTable program table ks) (hd : Describes p4table p4action table ks action)
    {elem actionElem : Element} (hre : Resolved elem (tableDecl p4table))
    (hra : Resolved actionElem (actionDecl p4action)) :
    recvFromController layout code (insertMessage elem actionElem entry act) =
      ⟨[.exactAdd table.name
          (fieldBytes (shownAt layout (insertMessage elem actionElem entry act) action) ks).flatten
          (givenValue action act)], .ok ()⟩ := by
  rw [recv_entry_shown he (h.reaches ht hd hre hra) (h.adds elem actionElem),
    finishAdd_exact ht.match_type (ht.builtKey _), h.value hra]

theorem CompleteInsert.pointer_shown
    (h : CompleteInsert p4table p4action ks action entry act values)
    (hn : ((paramCopies action).map ParamCopy.name).Nodup) (elem : Element) {actionElem : Element}
    (hra : Resolved actionElem (actionDecl p4action)) {f : Field} {j : Nat}
    (hq : j < action.parameters.length) (hp : j < act.params.length)
    (hname : action.parameters[j].name = valueVar f.1) :
    shownAt layout (insertMessage elem actionElem entry act) action f =
      viewOf act.params[j].value := by
  have hlt : j < (paramCopies action).length := by simpa [paramCopies] using hq
  have hcopy : (paramCopies action)[j].name = action.parameters[j].name ∧
      (paramCopies action)[j].index = j := by simp [paramCopies]
  have hfind := FirstBinding.find?_of_nodup hn (List.getElem_mem hlt)
  rw [hcopy.1, hname] at hfind
  have hrecord := h.param_records elem hra j act.params[j] (List.getElem?_eq_getElem hp)
  rw [shownAt, hfind]
  simp only [paramView, hcopy.2, hrecord, Option.getD_some]

theorem unnamed_shown {msg : CtrlMsg} {f : Field}
    (h : ∀ q ∈ action.parameters, q.name ≠ valueVar f.1) :
    shownAt layout msg action f = bitmapAt layout msg f := by
  have hnone : (paramCopies action).find? (fun p => p.name = valueVar f.1) = none := by
    refine List.find?_eq_none.mpr fun p hp hname => ?_
    obtain ⟨⟨q, j⟩, hq, rfl⟩ := List.mem_map.mp hp
    exact h q (List.fst_mem_of_mem_zipIdx hq) (of_decide_eq_true hname)
  rw [shownAt, hnone]

theorem readBytes_eq_iff {v w : Bytes} :
    readBytes (viewOf w) v.length = v.map some ↔ v <+: w := by
  rw [List.prefix_iff_getElem?, readBytes]
  constructor
  · intro h i hi
    have hget := congrArg (fun l => l[i]?) h
    simpa [viewOf, hi] using hget
  · intro h
    apply List.ext_getElem (by simp)
    intro i hi _
    have hlt : i < v.length := by simpa using hi
    simpa [viewOf] using h i hlt

theorem forall_zip_iff {A B : Type} {l : List A} {m : List B} {P : A × B → Prop} :
    (∀ x ∈ l.zip m, P x) ↔
      ∀ (i : Nat) (hl : i < l.length) (hm : i < m.length), P (l[i], m[i]) := by
  rw [List.forall_mem_iff_getElem]
  constructor
  · intro h i hl hm
    have hi := h i (by rw [List.length_zip]; omega)
    rwa [List.getElem_zip] at hi
  · intro h i hi
    rw [List.length_zip] at hi
    rw [List.getElem_zip]
    exact h i (by omega) (by omega)

theorem CompleteInsert.shown_iff (h : CompleteInsert p4table p4action ks action entry act values)
    (ht : ExactTable program table ks) (hl : layout.Lawful)
    (hn : ((paramCopies action).map ParamCopy.name).Nodup) {elem actionElem : Element}
    (hre : Resolved elem (tableDecl p4table)) (hra : Resolved actionElem (actionDecl p4action))
    {i : Nat} (hk : i < ks.length) (hv : i < values.length) :
    readBytes (shownAt layout (insertMessage elem actionElem entry act) action (ks[i], i))
        (getKeyByteWidth ks[i]) = values[i].map some ↔
      ∀ qp ∈ action.parameters.zip act.params, qp.1.name = valueVar ks[i] →
        values[i] <+: qp.2.value := by
  have hlen := h.params_length
  rw [forall_zip_iff, h.width_at hk hv]
  by_cases hex : ∃ q ∈ action.parameters, q.name = valueVar ks[i]
  · obtain ⟨q, hqmem, hname⟩ := hex
    obtain ⟨j, hj, rfl⟩ := List.getElem_of_mem hqmem
    have hshown (j' : Nat) (hq : j' < action.parameters.length) (hp : j' < act.params.length)
        (hname : action.parameters[j'].name = valueVar ks[i]) :=
      @CompleteInsert.pointer_shown layout ks action p4table p4action entry act values h hn elem
        actionElem hra (ks[i], i) j' hq hp hname
    constructor
    · intro hread j' hq hp hname'
      rw [hshown j' hq hp hname'] at hread
      exact readBytes_eq_iff.mp hread
    · intro hstarts
      rw [hshown j hj (by omega) hname]
      exact readBytes_eq_iff.mpr (hstarts j hj (by omega) hname)
  · push Not at hex
    have hshown := @unnamed_shown layout action (insertMessage elem actionElem entry act)
      (ks[i], i) hex
    rw [hshown, h.bitmap_at ht hl actionElem hre hk hv, readBytes_viewOf]
    exact iff_of_true rfl fun j hq _ hname => absurd hname (hex _ (List.getElem_mem hq))

theorem CompleteInsert.key_iff (h : CompleteInsert p4table p4action ks action entry act values)
    (ht : ExactTable program table ks) (hl : layout.Lawful)
    (hn : ((paramCopies action).map ParamCopy.name).Nodup) {elem actionElem : Element}
    (hre : Resolved elem (tableDecl p4table)) (hra : Resolved actionElem (actionDecl p4action)) :
    (fieldBytes (shownAt layout (insertMessage elem actionElem entry act) action) ks).flatten =
        values.flatten.map some ↔ KeyNamesFree ks values action act := by
  have hlen := h.values_length
  have hlengths : (values.map (·.map (some : UInt8 → Option UInt8))).map List.length =
      ks.map getKeyByteWidth := by
    rw [List.map_map, ← h.widths]
    exact List.map_congr_left fun v _ => List.length_map some
  have hsegments : (fieldBytes (shownAt layout (insertMessage elem actionElem entry act) action)
      ks).flatten = values.flatten.map some ↔
      fieldBytes (shownAt layout (insertMessage elem actionElem entry act) action) ks =
        values.map (·.map some) := by
    rw [List.map_flatten, List.eq_iff_flatten_eq, fieldBytes_lengths, hlengths]
    exact (and_iff_left rfl).symm
  rw [hsegments, KeyNamesFree, forall_zip_iff]
  constructor
  · intro heq i hk hv
    apply (h.shown_iff ht hl hn hre hra hk hv).mp
    have hget := congrArg (fun l => l[i]?) heq
    simpa [fieldBytes, hk, hv] using hget
  · intro hall
    apply List.ext_getElem (by simp [fieldBytes, hlen])
    intro i _ hi
    have hv : i < values.length := by simpa using hi
    have hread := (h.shown_iff ht hl hn hre hra (by omega) hv).mpr (hall i (by omega) hv)
    simpa [fieldBytes] using hread

theorem CompleteInsert.installed_shown
    (h : CompleteInsert p4table p4action ks action entry act values) (he : Emits program code)
    (ht : ExactTable program table ks) (hd : Describes p4table p4action table ks action)
    {elem actionElem : Element}
    (helem : getElement dm.idMap p4table.preamble.id.toUInt64 = some elem)
    (hre : Resolved elem (tableDecl p4table))
    (haction : getElement dm.idMap p4action.preamble.id.toUInt64 = some actionElem)
    (hra : Resolved actionElem (actionDecl p4action)) :
    installEntry layout code dm entry =
      ⟨[.exactAdd table.name
          (fieldBytes (shownAt layout (insertMessage elem actionElem entry act) action) ks).flatten
          (givenValue action act)], .ok Status.success⟩ := by
  obtain ⟨hclean, hact⟩ := h.clean helem hre haction hra
  rw [installEntry_of_action hclean hact h.not_rejected, h.received_shown he ht hd hre hra]

theorem pointers_nodup (he : Emits program code) (ht : ExactTable program table ks)
    (hmem : action ∈ table.actions) : ((paramCopies action).map ParamCopy.name).Nodup := by
  have htable := mem_code_tables he.generated (mem_tablesWithKeys.mpr ⟨ht.mem, ht.key⟩)
  exact (he.tables _ htable).pointers (actionBranch action)
    (List.mem_append_right _ (List.mem_map_of_mem hmem))

namespace ExactInstall

theorem dmac_exact : ExactTable L2fwd.program L2fwd.dmacTable L2fwd.dmacKey where
  mem := by decide
  key := rfl
  header := fun k hk => ⟨{ name := "ethernet", isVw := false }, by
    obtain rfl := List.mem_singleton.mp hk
    exact ⟨rfl, rfl⟩⟩
  field := by decide
  exact := by decide
  distinct := by decide
  action_names := by decide
  key_length := by decide
  match_type := rfl

theorem describes_forward :
    Describes L2fwd.dmac L2fwd.forward L2fwd.dmacTable L2fwd.dmacKey L2fwd.forwardAction where
  table_name := by decide
  fields := rfl
  action_mem := by decide
  action_name := by decide
  params := rfl

theorem resolves_forward : ResolvesTo L2fwd.server.dm L2fwd.dmac L2fwd.forward where
  table := ⟨FitDecl.element ⟨tableDecl L2fwd.dmac, by decide⟩, by decide,
    element_resolved _ (by decide)⟩
  action := ⟨FitDecl.element ⟨actionDecl L2fwd.forward, by decide⟩, by decide,
    element_resolved _ (by decide)⟩

theorem insertForward_complete :
    CompleteInsert L2fwd.dmac L2fwd.forward L2fwd.dmacKey L2fwd.forwardAction L2fwd.insertForward
      L2fwd.forwardPort [[0, 0, 0, 0, 0, 7]] where
  non_default := rfl
  table_id := rfl
  action_id := rfl
  direct := rfl
  fields := by decide
  exact := by decide
  widths := by decide
  params := by decide
  sizes := by decide
  unswapped := by decide

-- A table with two fields and an action `rewrite` with two parameters, the first named `first`.
def vid : Hlir.KeyElement := Hlir.Header.field { name := "vlan", isVw := false } "vid" 12 .exact

def fdbKey : List Hlir.KeyElement := [L2fwd.ethernetField "dstAddr", vid]

def rewriteAction (first : String) : Hlir.ActionObject :=
  { name := "rewrite"
    annotationName := cStr ".rewrite"
    parameters := [{ name := first, size := 48 }, { name := "port", size := 9 }] }

def fdbTable (first : String) : Hlir.Table :=
  { name := cStr "fdb"
    key := some fdbKey
    keyLengthBytes := 8
    matchType := .exact
    actions := [rewriteAction first, L2fwd.noActionObject] }

def fdbProgram (first : String) : Hlir.Program :=
  { tables := [fdbTable first, L2fwd.dmacTable], metafieldSize := fun _ => 0 }

def fdbCode (first : String) : Code :=
  { reverseBufferSize := 8
    tables := [tableCode (fdbProgram first) (fdbTable first) fdbKey,
      tableCode (fdbProgram first) L2fwd.dmacTable L2fwd.dmacKey] }

def fdb : P4Config.Table :=
  { preamble := { id := 33600001, name := "fdb" }
    matchFields :=
      [{ id := 1, name := "ethernet.dstAddr", bitwidth := 48 },
       { id := 2, name := "vlan.vid", bitwidth := 12 }]
    actionRefs := [16800001, 16800567] }

def rewrite (first : String) : P4Config.Action :=
  { preamble := { id := 16800001, name := "rewrite" }
    params := [{ id := 1, name := first, bitwidth := 48 }, { id := 2, name := "port", bitwidth := 9 }] }

def fdbInfo (first : String) : P4Config.P4Info :=
  { L2fwd.p4info with
    tables := [fdb, L2fwd.dmac]
    actions := [rewrite first, L2fwd.noAction, L2fwd.forward, L2fwd.bcast] }

def rewritePort : P4v1.Action :=
  { actionId := 16800001
    params :=
      [{ paramId := 1, value := [0, 0, 0, 0, 0, 9] }, { paramId := 2, value := [0, 3] }] }

def insertRewrite : TableEntry :=
  { tableId := 33600001
    matchList :=
      [{ fieldId := 1, fieldMatchType := .exact [0, 0, 0, 0, 0, 7] },
       { fieldId := 2, fieldMatchType := .exact [0, 5] }]
    action := .action rewritePort
    isDefaultAction := false }

theorem fdb_exact (first : String) : ExactTable (fdbProgram first) (fdbTable first) fdbKey where
  mem := List.mem_cons_self
  key := rfl
  header := fun k hk => by
    simp only [fdbKey, List.mem_cons, List.not_mem_nil, or_false] at hk
    rcases hk with rfl | rfl
    · exact ⟨{ name := "ethernet", isVw := false }, rfl, rfl⟩
    · exact ⟨{ name := "vlan", isVw := false }, rfl, rfl⟩
  field := by decide
  exact := by decide
  distinct := by decide
  action_names := (by decide : [lastComponent (cStr ".rewrite"), lastComponent (cStr "NoAction")].Nodup)
  key_length := rfl
  match_type := rfl

theorem describes_rewrite (first : String) :
    Describes fdb (rewrite first) (fdbTable first) fdbKey (rewriteAction first) where
  table_name := rfl
  fields := rfl
  action_mem := List.mem_cons_self
  action_name := (by decide : cStr "rewrite" = lastComponent (cStr ".rewrite"))
  params := rfl

theorem insertRewrite_complete (first : String) :
    CompleteInsert fdb (rewrite first) fdbKey (rewriteAction first) insertRewrite rewritePort
      [[0, 0, 0, 0, 0, 7], [0, 5]] where
  non_default := rfl
  table_id := rfl
  action_id := rfl
  direct := rfl
  fields := by decide
  exact := by decide
  widths := by decide
  params := rfl
  sizes := by simp [rewritePort, rewriteAction]
  unswapped := by
    intro p hp f hf hid htype
    simp only [rewritePort, List.mem_cons, List.not_mem_nil, or_false] at hp
    simp only [rewrite, List.mem_cons, List.not_mem_nil, or_false] at hf
    rcases hp with rfl | rfl <;> rcases hf with rfl | rfl
    · exact by decide
    · exact absurd (show (2 : UInt32) = 1 from hid) (by decide)
    · exact absurd (show (1 : UInt32) = 2 from hid) (by decide)
    · exact absurd htype (by decide)

theorem resolves_dst : ResolvesTo (L2fwd.serverAfter (fdbInfo "dst")).dm fdb (rewrite "dst") where
  table := ⟨FitDecl.element ⟨tableDecl fdb, by decide⟩, by decide, element_resolved _ (by decide)⟩
  action := ⟨FitDecl.element ⟨actionDecl (rewrite "dst"), by decide⟩, by decide,
    element_resolved _ (by decide)⟩

-- A parameter with the identifier of the first key field.
def hidden : String := "field_instance_ethernet_dstAddr"

theorem resolves_hidden : ResolvesTo (L2fwd.serverAfter (fdbInfo hidden)).dm fdb (rewrite hidden) where
  table := ⟨FitDecl.element ⟨tableDecl fdb, by decide⟩, by decide, element_resolved _ (by decide)⟩
  action := ⟨FitDecl.element ⟨actionDecl (rewrite hidden), by decide⟩, by decide,
    element_resolved _ (by decide)⟩

-- Two fields whose declarations clash: no program with both in one key compiles.
example : valueVar (Hlir.Header.field { name := "vlan", isVw := false } "tag_id" 8 .exact) =
    valueVar (Hlir.Header.field { name := "vlan_tag", isVw := false } "id" 8 .exact) := by decide

end ExactInstall

end Switch
