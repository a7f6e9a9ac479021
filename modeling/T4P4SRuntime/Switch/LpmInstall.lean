import T4P4SRuntime.Switch.ExactInstall
import T4P4SRuntime.Switch.LpmDepth

namespace Switch

open Device Codegen Messages Exec IdMap P4v1 Layout

variable {layout : RecordLayout} {program : Hlir.Program} {code : Code} {table : Hlir.Table}
  {ks : List Hlir.KeyElement} {action : Hlir.ActionObject} {p4table : P4Config.Table}
  {p4action : P4Config.Action} {dm : DeviceMgr} {entry : TableEntry} {act : P4v1.Action}
  {values : List Bytes} {position : Nat} {field : Hlir.KeyElement} {prefixLen : Int32}
  {msg : CtrlMsg} {elem actionElem : Element}

structure CompleteAction (p4action : P4Config.Action) (action : Hlir.ActionObject)
    (act : P4v1.Action) : Prop where
  action_id : act.actionId = p4action.preamble.id
  params : act.params.map Param.paramId = p4action.params.map P4Config.FieldDecl.id
  sizes : act.params.map (fun p => p.value.length) =
    action.parameters.map (fun q => (q.size + 7) / 8)
  unswapped : ∀ p ∈ act.params, ∀ f ∈ p4action.params, f.id = p.paramId →
    (cStr f.name).val = "type" → p.value.length ≠ 2

def requestOf (prefixLen : Int32) (k : Hlir.KeyElement) (value : Bytes) : FieldMatchType :=
  if k.matchType = .lpm then .lpm value prefixLen else .exact value

structure RouteInsert (p4table : P4Config.Table) (p4action : P4Config.Action)
    (ks : List Hlir.KeyElement) (action : Hlir.ActionObject) (entry : TableEntry)
    (act : P4v1.Action) (values : List Bytes) (prefixLen : Int32) : Prop where
  non_default : entry.isDefaultAction = false
  table_id : entry.tableId = p4table.preamble.id
  direct : entry.action = .action act
  complete : CompleteAction p4action action act
  fields : entry.matchList.map FieldMatch.fieldId = p4table.matchFields.map P4Config.FieldDecl.id
  requested : entry.matchList.map FieldMatch.fieldMatchType =
    List.zipWith (requestOf prefixLen) ks values
  widths : values.map List.length = ks.map getKeyByteWidth
  prefix_length : 0 ≤ prefixLen.toInt ∧ prefixLen.toInt < 256

def bytesOfKind (matchType : Hlir.MatchType) (ks : List Hlir.KeyElement) (values : List Bytes) :
    Bytes :=
  ((ks.zip values).filter (fun kv => kv.1.matchType = matchType)).flatMap Prod.snd

-- The exact fields come first, whatever the order of the key.
def routeKey (ks : List Hlir.KeyElement) (values : List Bytes) : Bytes :=
  bytesOfKind .exact ks values ++ bytesOfKind .lpm ks values

def routeDepth (ks : List Hlir.KeyElement) (prefixLen : Int32) : UInt8 :=
  UInt8.ofNat (exactBytes ks + prefixLen.toInt.toNat)

def routePromote (table : Hlir.Table) (ks : List Hlir.KeyElement) (action : Hlir.ActionObject)
    (act : P4v1.Action) (values : List Bytes) (prefixLen : Int32) : Promote :=
  .lpmAdd table.name ((routeKey ks values).reverse.map some) (routeDepth ks prefixLen)
    (givenValue action act)

def bareTable (p4table : P4Config.Table) : P4Config.Table := { p4table with matchFields := [] }

def bareEntry (entry : TableEntry) : TableEntry :=
  { entry with matchList := [], isDefaultAction := false }

-- The action part of an insert does not depend on the matches beside it.
theorem CompleteAction.bare (h : CompleteAction p4action action act)
    (htable : entry.tableId = p4table.preamble.id) (hdirect : entry.action = .action act) :
    CompleteInsert (bareTable p4table) p4action [] action (bareEntry entry) act [] where
  non_default := rfl
  table_id := htable
  action_id := h.action_id
  direct := hdirect
  fields := rfl
  exact := rfl
  widths := rfl
  params := h.params
  sizes := h.sizes
  unswapped := h.unswapped

theorem insertMessage_value (elem : Element) (actionElem : Element) (entry : TableEntry)
    (act : P4v1.Action) (action : Hlir.ActionObject) :
    valueOf (insertMessage elem actionElem entry act) action =
      valueOf (insertMessage elem actionElem (bareEntry entry) act) action := rfl

theorem CompleteAction.value (h : CompleteAction p4action action act)
    (htable : entry.tableId = p4table.preamble.id) (hdirect : entry.action = .action act)
    (elem : Element) (hr : Resolved actionElem (actionDecl p4action)) :
    valueOf (insertMessage elem actionElem entry act) action = givenValue action act := by
  rw [insertMessage_value]
  exact (h.bare htable hdirect).value hr

theorem CompleteAction.params_in_range (h : CompleteAction p4action action act)
    (htable : entry.tableId = p4table.preamble.id) (hdirect : entry.action = .action act)
    (elem : Element) (hr : Resolved actionElem (actionDecl p4action)) :
    action.parameters.length ≤ (insertMessage elem actionElem entry act).actionParams.length :=
  (paramsInRange_iff action).mp ((h.bare htable hdirect).params_in_range elem hr)

theorem CompleteAction.resolves (h : CompleteAction p4action action act)
    (htable : entry.tableId = p4table.preamble.id) (hdirect : entry.action = .action act)
    (ha : getElement dm.idMap p4action.preamble.id.toUInt64 = some actionElem)
    (hr : Resolved actionElem (actionDecl p4action)) :
    ActionResolves dm entry act actionElem ∧ ParamsResolve actionElem act.params := by
  refine ⟨⟨hdirect, by rw [h.action_id]; exact ha⟩, fun p hp => ?_⟩
  obtain ⟨arg, harg⟩ := (h.bare htable hdirect).params_resolve hr hp
  simp [harg]

theorem insertClean_of_fields (htable : entry.tableId = p4table.preamble.id)
    (helem : getElement dm.idMap p4table.preamble.id.toUInt64 = some elem)
    (hfields : FieldsResolve elem entry.matchList)
    (hact : ActionResolves dm entry act actionElem)
    (hparams : ParamsResolve actionElem act.params) : InsertClean dm entry elem where
  table := by
    rw [TableResolves, htable]
    exact helem
  fields := hfields
  params := by
    rintro act' actionElem' ⟨hdirect, hresolved⟩
    obtain rfl := TableAction.action.inj (hact.1.symm.trans hdirect)
    obtain rfl := Option.some.inj (hact.2.symm.trans hresolved)
    exact hparams

theorem RouteInsert.length (h : RouteInsert p4table p4action ks action entry act values prefixLen) :
    values.length = ks.length := by
  simpa using congrArg List.length h.widths

theorem RouteInsert.match_at
    (h : RouteInsert p4table p4action ks action entry act values prefixLen) {i : Nat}
    (hk : i < ks.length) (hv : i < values.length) :
    ∃ m, entry.matchList[i]? = some m ∧
      m.fieldMatchType = requestOf prefixLen ks[i] values[i] := by
  have hi := congrArg (fun l => l[i]?) h.requested
  simp only [List.getElem?_map, List.getElem?_zipWith, List.getElem?_eq_getElem hk,
    List.getElem?_eq_getElem hv] at hi
  exact Option.map_eq_some_iff.mp hi

theorem RouteInsert.supported
    (h : RouteInsert p4table p4action ks action entry act values prefixLen) {m : FieldMatch}
    (hm : m ∈ entry.matchList) : FieldMatchType.supported m.fieldMatchType = true := by
  have hmem := List.mem_map_of_mem (f := FieldMatch.fieldMatchType) hm
  rw [h.requested] at hmem
  obtain ⟨i, hi, he⟩ := List.mem_iff_getElem.mp hmem
  rw [← he, List.getElem_zipWith, requestOf]
  split_ifs <;> rfl

theorem RouteInsert.fields_resolve
    (h : RouteInsert p4table p4action ks action entry act values prefixLen)
    (hr : Resolved elem (tableDecl p4table)) : FieldsResolve elem entry.matchList := by
  intro m hm _
  have hmem := List.mem_map_of_mem (f := FieldMatch.fieldId) hm
  rw [h.fields] at hmem
  obtain ⟨arg, harg⟩ := argument_of_declared hr hmem
  simp [harg]

theorem RouteInsert.record_at
    (h : RouteInsert p4table p4action ks action entry act values prefixLen)
    (hr : Resolved elem (tableDecl p4table)) (actionElem : Element) {i : Nat} (hk : i < ks.length)
    (hv : i < values.length) :
    ∃ arg, (insertMessage elem actionElem entry act).fieldMatches[i]? =
      some (if ks[i].matchType = .lpm then genMatchRuleLpm arg values[i] prefixLen
        else genMatchRuleExact arg values[i]) := by
  have hresolve := h.fields_resolve hr
  obtain ⟨m, hm, ht⟩ := h.match_at hk hv
  have hmem := List.mem_of_getElem? hm
  obtain ⟨arg, harg⟩ := Option.ne_none_iff_exists'.mp (hresolve m hmem (h.supported hmem))
  refine ⟨arg, ?_⟩
  rw [insertMessage, filterMap_getElem? fun m hm => supported_record (hresolve m hm) (h.supported hm),
    hm, Option.bind_some, recordOf, harg, Option.bind_some, ht, requestOf]
  split_ifs <;> rfl

theorem LpmTable.kinds (h : LpmTable program table ks position field) {k : Hlir.KeyElement}
    (hk : k ∈ ks) : k.matchType = .exact ∨ k.matchType = .lpm := by
  obtain ⟨i, hi, rfl⟩ := List.mem_iff_getElem.mp hk
  rcases eq_or_ne i position with rfl | hne
  · obtain ⟨_, hget⟩ := List.getElem?_eq_some_iff.mp h.field_at
    exact Or.inr (by rw [hget, h.lpm])
  · exact Or.inl (h.exact i _ (List.getElem?_eq_getElem hi) hne)

theorem LpmTable.sorted (h : LpmTable program table ks position field) :
    sortedFields ks = ks.zipIdx.filter (fun f => f.1.matchType = .exact) ++
      ks.zipIdx.filter (fun f => f.1.matchType = .lpm) := by
  have hkinds : ∀ f ∈ ks.zipIdx,
      matchTypeOrder f.1.matchType = 0 ∨ matchTypeOrder f.1.matchType = 1 := by
    intro f hf
    rcases h.kinds (List.fst_mem_of_mem_zipIdx hf) with hk | hk
    · exact Or.inl (by rw [hk]; rfl)
    · exact Or.inr (by rw [hk]; rfl)
  have hzero (m : Hlir.MatchType) : (matchTypeOrder m = 0) = (m = .exact) := by
    cases m <;> simp [matchTypeOrder]
  have hone (m : Hlir.MatchType) : (matchTypeOrder m = 1) = (m = .lpm) := by
    cases m <;> simp [matchTypeOrder]
  rw [sortedFields, Positional.insertionSort_two hkinds]
  simp only [hzero, hone]

def valueAt (values : List Bytes) (f : Field) : Bytes := values[f.2]?.getD []

theorem bytesOfKind_eq (hlen : values.length = ks.length) (matchType : Hlir.MatchType) :
    bytesOfKind matchType ks values =
      (ks.zipIdx.filter (fun f => f.1.matchType = matchType)).flatMap (valueAt values) := by
  have hzip : ks.zip values = ks.zipIdx.map (fun f => (f.1, valueAt values f)) := by
    apply List.ext_getElem (by simp [hlen])
    intro i hi _
    have hv : i < values.length := by
      rw [List.length_zip] at hi
      omega
    simp [valueAt, List.getElem?_eq_getElem hv]
  rw [bytesOfKind, hzip, List.filter_map, List.flatMap_map]
  rfl

theorem RouteInsert.bitmap_at
    (h : RouteInsert p4table p4action ks action entry act values prefixLen)
    (ht : LpmTable program table ks position field) (hl : layout.Lawful)
    (hr : Resolved elem (tableDecl p4table)) (actionElem : Element) {f : Field}
    (hf : f ∈ ks.zipIdx) :
    readBytes (bitmapAt layout (insertMessage elem actionElem entry act) f) (getKeyByteWidth f.1) =
      (valueAt values f).map some := by
  obtain ⟨hi, hfst⟩ := List.mem_zipIdx' hf
  have hlen := h.length
  have hv : f.2 < values.length := by omega
  have hwidth : getKeyByteWidth f.1 = values[f.2].length := by
    rw [hfst]
    exact (getElem_of_map_eq h.widths hv hi).symm
  obtain ⟨arg, hrec⟩ := h.record_at hr actionElem hi hv
  rw [← hfst] at hrec
  rw [valueAt, List.getElem?_eq_getElem hv, Option.getD_some, hwidth, bitmapAt, hrec]
  rcases ht.kinds (List.fst_mem_of_mem_zipIdx hf) with hk | hk
  · simp only [hk, reduceCtorEq, if_false, genMatchRuleExact, hl.exactBitmap, readBytes_viewOf]
  · simp only [hk, if_true, genMatchRuleLpm, hl.lpmBitmap, readBytes_viewOf]

theorem LpmTable.key_size (h : LpmTable program table ks position field) :
    keySizeOf program table ks = (ks.map getKeyByteWidth).sum := by
  have hlen := h.key_length
  cases hks : ks with
  | nil =>
      have hat := h.field_at
      rw [hks] at hat
      cases hat
  | cons k rest =>
      have hm := h.not_meta k (by simp [hks])
      rw [hks] at hlen
      simp [keySizeOf, hm, hlen]

theorem routeKey_eq (ht : LpmTable program table ks position field)
    (hlen : values.length = ks.length) :
    routeKey ks values = (sortedFields ks).flatMap (valueAt values) := by
  rw [routeKey, bytesOfKind_eq hlen, bytesOfKind_eq hlen, ht.sorted, List.flatMap_append]

theorem valuesAt_zipIdx (hlen : values.length = ks.length) :
    ks.zipIdx.map (valueAt values) = values := by
  apply List.ext_getElem (by simp [hlen])
  intro i _ hv
  simp [valueAt, List.getElem?_eq_getElem hv]

theorem RouteInsert.key_length
    (h : RouteInsert p4table p4action ks action entry act values prefixLen)
    (ht : LpmTable program table ks position field) :
    (routeKey ks values).length = (ks.map getKeyByteWidth).sum := by
  have hperm := (List.perm_insertionSort (fun f g : Field =>
    matchTypeOrder f.1.matchType ≤ matchTypeOrder g.1.matchType) ks.zipIdx).flatMap_right
      (valueAt values)
  have hall : ks.zipIdx.flatMap (valueAt values) = values.flatten := by
    rw [List.flatMap_def, valuesAt_zipIdx h.length]
  rw [routeKey_eq ht h.length, sortedFields, hperm.length_eq, hall, List.length_flatten, h.widths]

theorem RouteInsert.builtKey
    (h : RouteInsert p4table p4action ks action entry act values prefixLen)
    (ht : LpmTable program table ks position field) (hl : layout.Lawful)
    (hr : Resolved elem (tableDecl p4table)) (actionElem : Element) :
    Codegen.builtKey program table (bitmapAt layout (insertMessage elem actionElem entry act)) ks =
      some ((routeKey ks values).map some) := by
  have hmem {f : Field} (hf : f ∈ sortedFields ks) : f ∈ ks.zipIdx :=
    (List.mem_insertionSort _).mp hf
  have hspecial : ∀ f ∈ sortedFields ks, isSpecial f.1 = false := fun f hf =>
    (ht.part (List.fst_mem_of_mem_zipIdx (hmem hf))).not_special
  have hmeta : ∀ f ∈ sortedFields ks, isMeta f.1 = false := fun f hf =>
    ht.not_meta f.1 (List.fst_mem_of_mem_zipIdx (hmem hf))
  have hsegments : (sortedFields ks).map (fun f => readBytes
      (bitmapAt layout (insertMessage elem actionElem entry act) f) (getKeyByteWidth f.1)) =
        (sortedFields ks).map (fun f => (valueAt values f).map some) :=
    List.map_congr_left fun f hf => h.bitmap_at ht hl hr actionElem (hmem hf)
  have hflat : ((sortedFields ks).map (fun f => (valueAt values f).map some)).flatten =
      (routeKey ks values).map some := by
    rw [routeKey_eq ht h.length, List.map_flatMap, List.flatMap_def]
  have hsize : ((sortedFields ks).map (fun f => (valueAt values f).map some)).flatten.length =
      keySizeOf program table ks := by
    rw [hflat, List.length_map, h.key_length ht, ht.key_size]
  rw [Codegen.builtKey, writesOf_eq_segments _ 0 hspecial hmeta, hsegments,
    writeAll_segments_fill _ hsize, hflat]

theorem LpmTable.turned_bytes (h : LpmTable program table ks position field)
    (he : Emits program code) : byteIdxOf program ks = (ks.map getKeyByteWidth).sum := by
  rw [(h.mixed he).byteIdx, stepSum]
  exact congrArg List.sum (List.map_congr_left fun k hk => by simp [step, h.not_meta k hk])

theorem RouteInsert.depth
    (h : RouteInsert p4table p4action ks action entry act values prefixLen)
    (ht : LpmTable program table ks position field) (hl : layout.Lawful)
    (hr : Resolved elem (tableDecl p4table)) (actionElem : Element) :
    depthOf layout (insertMessage elem actionElem entry act) ks = routeDepth ks prefixLen := by
  obtain ⟨hk, hget⟩ := List.getElem?_eq_some_iff.mp ht.field_at
  have hlen := h.length
  obtain ⟨arg, hrec⟩ := h.record_at hr actionElem hk (by omega)
  obtain ⟨hnonneg, hsmall⟩ := h.prefix_length
  have hword : (layout.lpmPrefixLength (genMatchRuleLpm arg values[position] prefixLen)).toNat =
      prefixLen.toNatClampNeg := by
    apply hl.lpmPrefixLength
    · rwa [Int32.le_iff_toInt_le, Int32.toInt_zero]
    · rwa [Int32.lt_iff_toInt_lt, show (256 : Int32).toInt = 256 from rfl]
  rw [hget, ht.lpm, if_pos rfl] at hrec
  rw [ht.depthOf, prefixAt, hrec, Option.map_some, Option.getD_some, routeDepth, UInt8.ofNat_add,
    ← UInt8.toNat_inj]
  simp only [UInt8.toNat_add, UInt16.toNat_toUInt8, hword, UInt8.toNat_ofNat',
    Int32.toNatClampNeg]

theorem RouteInsert.reaches
    (h : RouteInsert p4table p4action ks action entry act values prefixLen)
    (hb : Builds program code) (ht : LpmTable program table ks position field)
    (hnames : (table.actions.map getActionNameStr).Nodup)
    (hd : Describes p4table p4action table ks action) (hre : Resolved elem (tableDecl p4table))
    (hra : Resolved actionElem (actionDecl p4action)) :
    Reaches program code (insertMessage elem actionElem entry act) table ks action where
  mem := ht.mem
  table_name := hre.name.trans hd.table_name
  selects := by
    have hname : actionElem.value = getActionNameStr action := hra.name.trans hd.action_name
    rw [insertMessage, hname]
    exact FirstBinding.find?_of_nodup hnames hd.action_mem
  params := h.complete.params_in_range h.table_id h.direct elem hra
  entry := fun _ => by
    refine ⟨fun i hi => ?_, ht.finishes hb.toEmits⟩
    rw [ht.fieldsOf, List.zipIdx_map_snd] at hi
    have hlt := List.mem_range'_1.mp hi
    have hlen := h.length
    obtain ⟨arg, hrec⟩ := h.record_at hre actionElem (i := i) (by omega) (by omega)
    exact (List.getElem?_eq_some_iff.mp hrec).1

theorem RouteInsert.received
    (h : RouteInsert p4table p4action ks action entry act values prefixLen) (hl : layout.Lawful)
    (hb : Builds program code) (ht : LpmTable program table ks position field)
    (hnames : (table.actions.map getActionNameStr).Nodup)
    (hd : Describes p4table p4action table ks action) (hre : Resolved elem (tableDecl p4table))
    (hra : Resolved actionElem (actionDecl p4action)) :
    recvFromController layout code (insertMessage elem actionElem entry act) =
      ⟨[routePromote table ks action act values prefixLen], .ok ()⟩ := by
  have htype : (insertMessage elem actionElem entry act).type = .addTableEntry := by
    simp [insertMessage, msgType, h.non_default]
  have hwhole : reversePrefix (byteIdxOf program ks) ((routeKey ks values).map some) =
      (routeKey ks values).reverse.map some := by
    have hlen : ((routeKey ks values).map (some : UInt8 → Option UInt8)).length =
        byteIdxOf program ks := by
      rw [List.length_map, h.key_length ht, ht.turned_bytes hb.toEmits]
    rw [reversePrefix, ← hlen, List.take_length, List.drop_length, List.append_nil,
      List.map_reverse]
  rw [recv_entry_of_reaches hb (h.reaches hb ht hnames hd hre hra) htype,
    finishAdd_lpm (ht.finishes hb.toEmits) ht.match_type (h.builtKey ht hl hre actionElem), hwhole,
    h.depth ht hl hre actionElem, h.complete.value h.table_id h.direct elem hra]
  rfl

theorem RouteInsert.installs
    (h : RouteInsert p4table p4action ks action entry act values prefixLen) (hl : layout.Lawful)
    (hb : Builds program code) (ht : LpmTable program table ks position field)
    (hnames : (table.actions.map getActionNameStr).Nodup)
    (hd : Describes p4table p4action table ks action) (hr : ResolvesTo dm p4table p4action) :
    installEntry layout code dm entry =
      ⟨[routePromote table ks action act values prefixLen], .ok Status.success⟩ := by
  obtain ⟨elem, he, hre⟩ := hr.table
  obtain ⟨actionElem, ha, hra⟩ := hr.action
  obtain ⟨hact, hparams⟩ := h.complete.resolves h.table_id h.direct ha hra
  have hclean := insertClean_of_fields h.table_id he (h.fields_resolve hre) hact hparams
  have hstands := not_rejectionStands_of_supported fun m hm => h.supported hm
  rw [installEntry_of_action hclean hact hstands, h.received hl hb ht hnames hd hre hra]

theorem routeKey_inj {values' : List Bytes} (ht : LpmTable program table ks position field)
    (hw : values.map List.length = ks.map getKeyByteWidth)
    (hw' : values'.map List.length = ks.map getKeyByteWidth)
    (he : routeKey ks values = routeKey ks values') : values = values' := by
  have hlen : values.length = ks.length := by simpa using congrArg List.length hw
  have hlen' : values'.length = ks.length := by simpa using congrArg List.length hw'
  have hsame : (sortedFields ks).map (valueAt values) = (sortedFields ks).map (valueAt values') := by
    apply List.eq_iff_flatten_eq.mpr
    refine ⟨?_, ?_⟩
    · rw [← List.flatMap_def, ← List.flatMap_def, ← routeKey_eq ht hlen, ← routeKey_eq ht hlen', he]
    · rw [List.map_map, List.map_map]
      apply List.map_congr_left
      intro f hf
      obtain ⟨hi, -⟩ := List.mem_zipIdx' ((List.mem_insertionSort _).mp hf)
      have hi' : f.2 < values.length := by omega
      have hi'' : f.2 < values'.length := by omega
      simp only [Function.comp_apply, valueAt, List.getElem?_eq_getElem hi',
        List.getElem?_eq_getElem hi'', Option.getD_some]
      rw [getElem_of_map_eq hw hi' hi, getElem_of_map_eq hw' hi'' hi]
  rw [← valuesAt_zipIdx hlen, ← valuesAt_zipIdx hlen']
  exact List.map_congr_left fun f hf =>
    List.map_inj_left.mp hsame f ((List.mem_insertionSort _).mpr hf)

theorem routeDepth_inj {prefixLen' : Int32} (h : 0 ≤ prefixLen.toInt ∧ prefixLen.toInt < 256)
    (h' : 0 ≤ prefixLen'.toInt ∧ prefixLen'.toInt < 256)
    (he : routeDepth ks prefixLen = routeDepth ks prefixLen') : prefixLen = prefixLen' := by
  rw [routeDepth, routeDepth, ← UInt8.toNat_inj, UInt8.toNat_ofNat', UInt8.toNat_ofNat'] at he
  apply Int32.toInt_inj.mp
  omega

theorem givenValue_inj {act' : P4v1.Action} (h : CompleteAction p4action action act)
    (h' : CompleteAction p4action action act')
    (he : givenValue action act = givenValue action act') :
    act.params.map Param.value = act'.params.map Param.value := by
  have hlen : act.params.length = action.parameters.length := by
    simpa using congrArg List.length h.sizes
  have hlen' : act'.params.length = action.parameters.length := by
    simpa using congrArg List.length h'.sizes
  have hparams := (ActionValue.mk.inj he).2
  apply List.ext_getElem (by simp [hlen, hlen'])
  intro j hj hj'
  rw [List.length_map] at hj hj'
  have hget := congrArg (fun l => (l[j]?).map Prod.snd) hparams
  have hq : j < action.parameters.length := by omega
  simp only [List.getElem?_zipWith, List.getElem?_eq_getElem hj, List.getElem?_eq_getElem hj',
    List.getElem?_eq_getElem hq, Option.map_some, Option.some.injEq] at hget
  rw [List.getElem_map, List.getElem_map]
  exact List.map_injective_iff.mpr (Option.some_injective _) hget

theorem lpm_routes_faithful {entry' : TableEntry} {act' : P4v1.Action} {values' : List Bytes}
    {prefixLen' : Int32} (hl : layout.Lawful) (hb : Builds program code)
    (ht : LpmTable program table ks position field)
    (hnames : (table.actions.map getActionNameStr).Nodup)
    (hd : Describes p4table p4action table ks action) (hr : ResolvesTo dm p4table p4action)
    (h : RouteInsert p4table p4action ks action entry act values prefixLen)
    (h' : RouteInsert p4table p4action ks action entry' act' values' prefixLen') :
    installEntry layout code dm entry =
        ⟨[routePromote table ks action act values prefixLen], .ok Status.success⟩ ∧
      (installEntry layout code dm entry = installEntry layout code dm entry' ↔
        values = values' ∧ prefixLen = prefixLen' ∧
          act.params.map Param.value = act'.params.map Param.value) := by
  have hone := h.installs hl hb ht hnames hd hr
  refine ⟨hone, ?_⟩
  rw [hone, h'.installs hl hb ht hnames hd hr]
  constructor
  · intro he
    obtain ⟨-, hkey, hdepth, hvalue⟩ := Promote.lpmAdd.inj (List.cons.inj (Exec.mk.inj he).1).1
    have hbytes : routeKey ks values = routeKey ks values' :=
      List.reverse_injective (List.map_injective_iff.mpr (Option.some_injective _) hkey)
    exact ⟨routeKey_inj ht h.widths h'.widths hbytes,
      routeDepth_inj h.prefix_length h'.prefix_length hdepth,
      givenValue_inj h.complete h'.complete hvalue⟩
  · rintro ⟨rfl, rfl, hparams⟩
    have hvalue : givenValue action act = givenValue action act' := by
      have hzip (ps : List Param) : List.zipWith
          (fun (q : Hlir.Parameter) (p : Param) => (q.name, p.value.map some)) action.parameters ps =
            List.zipWith (fun (q : Hlir.Parameter) (v : Bytes) => (q.name, v.map some))
              action.parameters (ps.map Param.value) := by
        rw [List.zipWith_map_right]
      rw [givenValue, givenValue, hzip, hzip, hparams]
    simp only [routePromote, hvalue]

namespace LpmInstall

open LpmDepth

def routesInfo : P4Config.Table :=
  { preamble := { id := 33554434, name := "vlan_routes" }
    matchFields :=
      [{ id := 1, name := "vlan.vid", bitwidth := 12 },
       { id := 2, name := "ipv4.dstAddr", bitwidth := 32 }]
    actionRefs := [16811908] }

theorem describes_vlanRoutes :
    Describes routesInfo L2fwd.forward vlanRoutes [vlanId, dstAddr] L2fwd.forwardAction where
  table_name := by decide
  fields := rfl
  action_mem := by decide
  action_name := by decide
  params := rfl

theorem resolves_vlanRoutes : ResolvesTo server.dm routesInfo L2fwd.forward where
  table := ⟨FitDecl.element ⟨tableDecl routesInfo, by decide⟩, by decide,
    element_resolved _ (by decide)⟩
  action := ⟨FitDecl.element ⟨actionDecl L2fwd.forward, by decide⟩, by decide,
    element_resolved _ (by decide)⟩

theorem insertVlanRoute_complete :
    RouteInsert routesInfo L2fwd.forward [vlanId, dstAddr] L2fwd.forwardAction insertVlanRoute
      L2fwd.forwardPort [[0, 5], [10, 0, 1, 0]] 24 where
  non_default := rfl
  table_id := rfl
  direct := rfl
  complete :=
    { action_id := rfl
      params := by decide
      sizes := by decide
      unswapped := by decide }
  fields := by decide
  requested := by decide
  widths := by decide
  prefix_length := by decide

def insertWiderRoute : TableEntry :=
  { insertVlanRoute with
    matchList :=
      [{ fieldId := 1, fieldMatchType := .exact [0, 5] },
       { fieldId := 2, fieldMatchType := .lpm [10, 0, 0, 0] 16 }] }

theorem insertWiderRoute_complete :
    RouteInsert routesInfo L2fwd.forward [vlanId, dstAddr] L2fwd.forwardAction insertWiderRoute
      L2fwd.forwardPort [[0, 5], [10, 0, 0, 0]] 16 :=
  { insertVlanRoute_complete with
    requested := by decide
    widths := by decide
    prefix_length := by decide }

theorem vlan_routes_faithful :
    installEntry packedLayout routingCode server.dm insertVlanRoute =
        ⟨[routePromote vlanRoutes [vlanId, dstAddr] L2fwd.forwardAction L2fwd.forwardPort
          [[0, 5], [10, 0, 1, 0]] 24], .ok Status.success⟩ ∧
      (installEntry packedLayout routingCode server.dm insertVlanRoute =
          installEntry packedLayout routingCode server.dm insertWiderRoute ↔
        ([[0, 5], [10, 0, 1, 0]] : List Bytes) = [[0, 5], [10, 0, 0, 0]] ∧ (24 : Int32) = 16 ∧
          L2fwd.forwardPort.params.map Param.value = L2fwd.forwardPort.params.map Param.value) :=
  lpm_routes_faithful packedLayout_lawful builds_routing lpm_vlanRoutes (by decide)
    describes_vlanRoutes resolves_vlanRoutes insertVlanRoute_complete insertWiderRoute_complete

end LpmInstall

end Switch
