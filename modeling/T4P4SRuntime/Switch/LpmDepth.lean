import T4P4SRuntime.Codegen.KeyLayout
import T4P4SRuntime.Switch.L2fwdCode

namespace Switch

open Device Codegen Messages Exec IdMap P4v1

variable {layout : RecordLayout} {program : Hlir.Program} {code : Code} {table : Hlir.Table}
  {ks : List Hlir.KeyElement} {position : Nat} {field : Hlir.KeyElement} {dm : DeviceMgr}
  {entry : TableEntry} {msg : CtrlMsg} {prefixLen : Int32}

-- A table with one `lpm` field, at `position`, among `exact` ones.
structure LpmTable (program : Hlir.Program) (table : Hlir.Table) (ks : List Hlir.KeyElement)
    (position : Nat) (field : Hlir.KeyElement) : Prop where
  mem : (table, ks) ∈ tablesWithKeys program
  match_type : table.matchType = .lpm
  header : ∀ k ∈ ks, ∃ header, k.header = some header ∧ header.isVw = false
  not_meta : ∀ k ∈ ks, isMeta k = false
  field_at : ks[position]? = some field
  lpm : field.matchType = .lpm
  exact : ∀ (i : Nat) k, ks[i]? = some k → i ≠ position → k.matchType = .exact
  key_length : table.keyLengthBytes = (ks.map getKeyByteWidth).sum

def exactBytes (ks : List Hlir.KeyElement) : Nat :=
  ((ks.filter (fun k => k.matchType = .exact)).map getKeyByteWidth).sum

def prefixOf (m : FieldMatch) : Option Int32 :=
  match m.fieldMatchType with
  | .lpm _ prefixLen => some prefixLen
  | .exact _ | .ternary _ _ | .range _ _ | .other | .notSet => none

-- `table_insert` accepts the entry, and its message comes to the `_add` of the table.
structure AcceptedInsert (dm : DeviceMgr) (table : Hlir.Table) (ks : List Hlir.KeyElement)
    (entry : TableEntry) (msg : CtrlMsg) (prefixLen : Int32) : Prop where
  accepted : tableInsert dm entry = ⟨[.cb msg], .ok Status.success⟩
  requested : entry.matchList.filterMap prefixOf = [prefixLen]
  adds : msg.type = .addTableEntry
  table_name : msg.tableName = table.name
  selects : ∃ act, actionNamed table msg.actionName = some act ∧
    act.parameters.length ≤ msg.actionParams.length
  in_range : KeyInRange ks msg

def PrefixInRange (field : Hlir.KeyElement) (prefixLen : Int32) : Prop :=
  0 ≤ prefixLen.toInt ∧ prefixLen.toInt ≤ field.width

instance (field : Hlir.KeyElement) (prefixLen : Int32) :
    Decidable (PrefixInRange field prefixLen) := inferInstanceAs (Decidable (_ ∧ _))

structure DepthRight (layout : RecordLayout) (code : Code) (dm : DeviceMgr) (entry : TableEntry)
    (table : Hlir.Table) (ks : List Hlir.KeyElement) (field : Hlir.KeyElement)
    (prefixLen : Int32) : Prop where
  passed : PrefixInRange field prefixLen → ∃ key depth value,
    installEntry layout code dm entry =
        ⟨[.lpmAdd table.name key depth value], .ok Status.success⟩ ∧
      (depth.toNat : Int) = 8 * exactBytes ks + prefixLen.toInt ∧
      depth.toNat ≤ 8 * table.keyLengthBytes
  refused : ¬PrefixInRange field prefixLen →
    ∃ status, installEntry layout code dm entry = ⟨[], .ok status⟩ ∧ status.ok = false

def LpmInPlace (msg : CtrlMsg) (position : Nat) : Prop :=
  ∃ name prefixLen bitmap, msg.fieldMatches[position]? =
    some (FieldMatchRecord.lpm name prefixLen bitmap)

structure DepthCondition (msg : CtrlMsg) (position : Nat) (ks : List Hlir.KeyElement)
    (field : Hlir.KeyElement) (prefixLen : Int32) : Prop where
  in_place : LpmInPlace msg position
  no_exact : exactBytes ks = 0
  in_range : PrefixInRange field prefixLen
  fits_byte : prefixLen.toInt ≤ 255

theorem LpmTable.part (h : LpmTable program table ks position field) {k : Hlir.KeyElement}
    (hk : k ∈ ks) : KeyPart program k := by
  obtain ⟨header, hh, hv⟩ := h.header k hk
  exact .field hh hv (h.not_meta k hk)

theorem LpmTable.mixed (h : LpmTable program table ks position field)
    (hb : Emits program code) : MixedTable program table ks where
  mem := h.mem
  parts := fun _ hk => h.part hk
  compiles := hb.tables _ (mem_code_tables hb.generated h.mem)
  key_length := by
    rw [h.key_length, headerBytes, List.filter_eq_self.mpr fun k hk => by simp [h.not_meta k hk]]

theorem LpmTable.finishes (h : LpmTable program table ks position field)
    (hb : Emits program code) : Finishes program code table ks :=
  (placed_of_headers hb.generated (h.mixed hb) h.not_meta).finishes (h.mixed hb)
    (by simp [h.match_type])

theorem LpmTable.fieldsOf (h : LpmTable program table ks position field) :
    Codegen.fieldsOf ks = ks.zipIdx :=
  List.filter_eq_self.mpr fun f hf => by
    have hk := List.fst_mem_of_mem_zipIdx hf
    obtain ⟨header, hh, -⟩ := h.header f.1 hk
    simp [isSpecial, hh]

theorem exactBytes_cons (k : Hlir.KeyElement) (ks : List Hlir.KeyElement) :
    exactBytes (k :: ks) = (if k.matchType = .exact then getKeyByteWidth k else 0) + exactBytes ks := by
  rw [exactBytes, exactBytes, List.filter_cons]
  split_ifs <;> simp_all

-- The depth grows by a byte count for an exact field, and by a bit count for the other.
theorem depth_after (ks : List Hlir.KeyElement) (off : Nat) (depth : UInt8)
    (hheader : ∀ k ∈ ks, k.header.isSome) (hexact : ∀ k ∈ ks, k.matchType = .exact) :
    (ks.zipIdx off).foldl (depthStep layout msg) depth = depth + UInt8.ofNat (exactBytes ks) := by
  induction ks generalizing off depth with
  | nil => simp [exactBytes]
  | cons k ks ih =>
      obtain ⟨hk, hks⟩ := List.forall_mem_cons.mp hheader
      obtain ⟨he, hes⟩ := List.forall_mem_cons.mp hexact
      have hnone : k.header.isNone = false := by simpa using hk
      have hstep : depthStep layout msg depth (k, off) = depth + UInt8.ofNat (getKeyByteWidth k) := by
        simp [depthStep, hnone, he]
      rw [List.zipIdx_cons, List.foldl_cons, hstep, ih _ _ hks hes, exactBytes_cons, if_pos he,
        UInt8.ofNat_add, add_assoc]

theorem exactBytes_append (before after : List Hlir.KeyElement) :
    exactBytes (before ++ after) = exactBytes before + exactBytes after := by
  simp [exactBytes]

theorem LpmTable.split (h : LpmTable program table ks position field) :
    ∃ before after, ks = before ++ field :: after ∧ before.length = position ∧
      (∀ k ∈ before, k.matchType = .exact) ∧ ∀ k ∈ after, k.matchType = .exact := by
  obtain ⟨hlt, hget⟩ := List.getElem?_eq_some_iff.mp h.field_at
  refine ⟨ks.take position, ks.drop (position + 1), ?_, by rw [List.length_take]; omega, ?_, ?_⟩
  · rw [← hget, List.cons_getElem_drop_succ, List.take_append_drop]
  · intro k hk
    obtain ⟨i, hi, rfl⟩ := List.mem_take_iff_getElem.mp hk
    exact h.exact i _ (List.getElem?_eq_getElem (by omega)) (by omega)
  · intro k hk
    obtain ⟨i, hi, rfl⟩ := List.mem_drop_iff_getElem.mp hk
    have hlt' : position + 1 + i < ks.length := by omega
    exact h.exact (position + 1 + i) _ (List.getElem?_eq_getElem hlt') (by omega)

theorem LpmTable.depthOf (h : LpmTable program table ks position field) (layout : RecordLayout)
    (msg : CtrlMsg) :
    Codegen.depthOf layout msg ks =
      UInt8.ofNat (exactBytes ks) + (prefixAt layout msg (field, position)).toUInt8 := by
  have hheader : ∀ k ∈ ks, k.header.isSome := fun k hk => by
    obtain ⟨header, hh, -⟩ := h.header k hk
    simp [hh]
  rw [Codegen.depthOf, h.fieldsOf]
  obtain ⟨before, after, rfl, hlen, hbefore, hafter⟩ := h.split
  have hnone : field.header.isNone = false := by
    simpa using hheader field (by simp)
  have hexact : field.matchType ≠ .exact := by simp [h.lpm]
  rw [List.zipIdx_append, List.zipIdx_cons, List.foldl_append, List.foldl_cons, Nat.zero_add, hlen,
    depth_after before 0 0 (fun k hk => hheader k (by simp [hk])) hbefore,
    depth_after after _ _ (fun k hk => hheader k (by simp [hk])) hafter, exactBytes_append,
    exactBytes_cons, if_neg hexact, Nat.zero_add, UInt8.ofNat_add, zero_add]
  simp only [depthStep, hnone, Bool.false_eq_true, if_false, h.lpm]
  exact add_right_comm _ _ _

theorem reaches_of_accepted (hb : Emits program code)
    (ht : LpmTable program table ks position field)
    (ha : AcceptedInsert dm table ks entry msg prefixLen) :
    ∃ act, Reaches program code msg table ks act := by
  obtain ⟨act, hact, hparams⟩ := ha.selects
  exact ⟨act, ht.mem, ha.table_name, hact, hparams, fun _ => ⟨ha.in_range, ht.finishes hb⟩⟩

theorem installEntry_accepted (layout : RecordLayout) (hb : Emits program code)
    (ht : LpmTable program table ks position field)
    (ha : AcceptedInsert dm table ks entry msg prefixLen) :
    ∃ key value, installEntry layout code dm entry =
      ⟨[.lpmAdd table.name key (Codegen.depthOf layout msg ks) value], .ok Status.success⟩ := by
  obtain ⟨act, hr⟩ := reaches_of_accepted hb ht ha
  have hfin := ht.finishes hb
  obtain ⟨key, hkey⟩ := @builtKey_of_fits program table ks (shownAt layout msg act) hfin.fits
  have hrecv : recvFromController layout code msg = _ :=
    (recv_entry_shown hb hr ha.adds).trans (finishAdd_lpm hfin ht.match_type hkey _ _)
  refine ⟨reversePrefix (byteIdxOf program ks) key, valueOf msg act, ?_⟩
  rw [installEntry, ha.accepted]
  simp only [deliver, hrecv, mk_bind]
  rfl

theorem insertMessage_of_accepted (h : tableInsert dm entry = ⟨[.cb msg], .ok Status.success⟩) :
    ∃ elem actionElem action, msg = insertMessage elem actionElem entry action := by
  by_cases hc : ∃ elem, InsertClean dm entry elem
  · obtain ⟨elem, hc⟩ := hc
    by_cases hex : ∃ action actionElem, ActionResolves dm entry action actionElem
    · obtain ⟨action, actionElem, ha⟩ := hex
      rw [tableInsert_of_action hc ha] at h
      split at h
      · have hlog := (Exec.mk.inj h).1
        exact ⟨elem, actionElem, action, (Effect.cb.inj (List.cons.inj hlog).1).symm⟩
      · cases (Exec.mk.inj h).1
    · obtain ⟨status, he, -⟩ := tableInsert_of_no_action hc
        fun action actionElem ha => hex ⟨action, actionElem, ha⟩
      rw [he] at h
      cases (Exec.mk.inj h).1
  · obtain ⟨f, hf⟩ := tableInsert_faults fun elem he => hc ⟨elem, he⟩
    rw [hf] at h
    cases (Exec.mk.inj h).1

theorem prefix_requested (ha : AcceptedInsert dm table ks entry msg prefixLen) {name : CString}
    {stored : Int32} {bitmap : Bytes}
    (hget : msg.fieldMatches[position]? = some (.lpm name stored bitmap)) : stored = prefixLen := by
  obtain ⟨elem, actionElem, action, rfl⟩ := insertMessage_of_accepted ha.accepted
  obtain ⟨m, hm, hrec⟩ := List.mem_filterMap.mp (List.mem_of_getElem? hget)
  obtain ⟨arg, -, hrule⟩ := Option.bind_eq_some_iff.mp hrec
  have hmem : stored ∈ entry.matchList.filterMap prefixOf := by
    refine List.mem_filterMap.mpr ⟨m, hm, ?_⟩
    rw [prefixOf]
    cases ht : m.fieldMatchType with
    | lpm value p =>
        rw [ht] at hrule
        obtain ⟨-, rfl, -⟩ := FieldMatchRecord.lpm.inj (Option.some.inj hrule)
        rfl
    | exact | ternary =>
        rw [ht] at hrule
        cases Option.some.inj hrule
    | range | other | notSet =>
        rw [ht] at hrule
        cases hrule
  rw [ha.requested] at hmem
  exact List.mem_singleton.mp hmem

-- A layout in which the cast of a record of another kind reads `n`.
def biasedLayout (n : UInt16) : RecordLayout :=
  { packedLayout with
    lpmPrefixLength := fun
      | .lpm name prefixLength bitmap =>
          packedLayout.lpmPrefixLength (.lpm name prefixLength bitmap)
      | .exact _ _ _ | .ternary _ _ _ _ => n }

theorem biasedLayout_lawful (n : UInt16) : (biasedLayout n).Lawful :=
  { packedLayout_lawful with lpmPrefixLength := packedLayout_lawful.lpmPrefixLength }

theorem record_at (ht : LpmTable program table ks position field) (hr : KeyInRange ks msg) :
    ∃ record, msg.fieldMatches[position]? = some record := by
  have hlt := (List.getElem?_eq_some_iff.mp ht.field_at).1
  have hin := hr position (by rw [ht.fieldsOf, List.zipIdx_map_snd]; simp [hlt])
  exact ⟨_, List.getElem?_eq_getElem hin⟩

theorem biased_depth (ht : LpmTable program table ks position field) (hr : KeyInRange ks msg)
    (hn : ¬LpmInPlace msg position) (n : UInt16) :
    Codegen.depthOf (biasedLayout n) msg ks = UInt8.ofNat (exactBytes ks) + n.toUInt8 := by
  obtain ⟨record, hrec⟩ := record_at ht hr
  rw [ht.depthOf, prefixAt, hrec]
  cases record with
  | lpm name stored bitmap => exact absurd ⟨name, stored, bitmap, hrec⟩ hn
  | exact | ternary => rfl

theorem lawful_depth (hl : layout.Lawful) (ht : LpmTable program table ks position field)
    (ha : AcceptedInsert dm table ks entry msg prefixLen) (hp : LpmInPlace msg position)
    (h0 : 0 ≤ prefixLen.toInt) (h255 : prefixLen.toInt ≤ 255) :
    (Codegen.depthOf layout msg ks).toNat = (exactBytes ks + prefixLen.toInt.toNat) % 256 := by
  obtain ⟨name, stored, bitmap, hget⟩ := hp
  obtain rfl := prefix_requested ha hget
  have hnonneg : 0 ≤ stored := by rwa [Int32.le_iff_toInt_le, Int32.toInt_zero]
  have hsmall : stored < 256 := by
    rw [Int32.lt_iff_toInt_lt, show (256 : Int32).toInt = 256 from rfl]
    omega
  have hword := hl.lpmPrefixLength name stored bitmap hnonneg hsmall
  rw [ht.depthOf, prefixAt, hget, UInt8.toNat_add, UInt8.toNat_ofNat', Option.map_some,
    Option.getD_some, UInt16.toNat_toUInt8, hword, Int32.toNatClampNeg]
  omega

theorem right_depth (layout : RecordLayout) (hb : Emits program code)
    (ht : LpmTable program table ks position field)
    (ha : AcceptedInsert dm table ks entry msg prefixLen)
    (h : DepthRight layout code dm entry table ks field prefixLen) :
    PrefixInRange field prefixLen ∧
      ((Codegen.depthOf layout msg ks).toNat : Int) = 8 * exactBytes ks + prefixLen.toInt := by
  obtain ⟨key, value, he⟩ := installEntry_accepted layout hb ht ha
  have hin : PrefixInRange field prefixLen := by
    by_contra hn
    obtain ⟨status, hrefused, -⟩ := h.refused hn
    rw [he] at hrefused
    cases (Exec.mk.inj hrefused).1
  obtain ⟨key', depth, value', hpassed, hdepth, -⟩ := h.passed hin
  rw [he] at hpassed
  obtain ⟨-, -, rfl, -⟩ := Promote.lpmAdd.inj (List.cons.inj (Exec.mk.inj hpassed).1).1
  exact ⟨hin, hdepth⟩

theorem condition_of_right (hb : Emits program code)
    (ht : LpmTable program table ks position field)
    (ha : AcceptedInsert dm table ks entry msg prefixLen)
    (h : ∀ layout : RecordLayout, layout.Lawful →
      DepthRight layout code dm entry table ks field prefixLen) :
    DepthCondition msg position ks field prefixLen := by
  obtain ⟨hin, hdepth⟩ := right_depth packedLayout hb ht ha (h _ packedLayout_lawful)
  have hplace : LpmInPlace msg position := by
    by_contra hn
    have h0 := (right_depth _ hb ht ha (h _ (biasedLayout_lawful 0))).2
    have h1 := (right_depth _ hb ht ha (h _ (biasedLayout_lawful 1))).2
    have hsame : Codegen.depthOf (biasedLayout 0) msg ks =
        Codegen.depthOf (biasedLayout 1) msg ks := by
      rw [← UInt8.toNat_inj]
      omega
    rw [biased_depth ht ha.in_range hn, biased_depth ht ha.in_range hn, add_right_inj] at hsame
    exact absurd hsame (by decide)
  have hbyte := (Codegen.depthOf packedLayout msg ks).toNat_lt
  have h255 : prefixLen.toInt ≤ 255 := by omega
  have hlawful := lawful_depth packedLayout_lawful ht ha hplace hin.1 h255
  have hnonneg := hin.1
  exact { in_place := hplace, no_exact := by omega, in_range := hin, fits_byte := h255 }

theorem LpmTable.width_le (h : LpmTable program table ks position field) :
    field.width ≤ 8 * table.keyLengthBytes := by
  have hmem := List.mem_of_getElem? h.field_at
  obtain ⟨header, hh, hv⟩ := h.header field hmem
  have hwidth : getKeyByteWidth field = (field.width + 7) / 8 := by simp [getKeyByteWidth, hh, hv]
  have hle : getKeyByteWidth field ≤ table.keyLengthBytes := by
    rw [h.key_length]
    exact List.single_le_sum (by simp) _ (List.mem_map_of_mem hmem)
  omega

theorem right_of_condition (hl : layout.Lawful) (hb : Emits program code)
    (ht : LpmTable program table ks position field)
    (ha : AcceptedInsert dm table ks entry msg prefixLen)
    (h : DepthCondition msg position ks field prefixLen) :
    DepthRight layout code dm entry table ks field prefixLen where
  passed := fun hin => by
    obtain ⟨key, value, he⟩ := installEntry_accepted layout hb ht ha
    have hdepth := lawful_depth hl ht ha h.in_place hin.1 h.fits_byte
    have hwidth := ht.width_le
    obtain ⟨h0, hle⟩ := hin
    have h255 := h.fits_byte
    have hexact := h.no_exact
    exact ⟨key, _, value, he, by omega, by omega⟩
  refused := fun hn => absurd h.in_range hn

theorem lpm_depth_iff (hb : Emits program code) (ht : LpmTable program table ks position field)
    (ha : AcceptedInsert dm table ks entry msg prefixLen) :
    (∀ layout : RecordLayout, layout.Lawful →
        DepthRight layout code dm entry table ks field prefixLen) ↔
      DepthCondition msg position ks field prefixLen := by
  constructor
  · exact condition_of_right hb ht ha
  · intro h layout hl
    exact right_of_condition hl hb ht ha h

namespace LpmDepth

def dstAddr : Hlir.KeyElement :=
  Hlir.Header.field { name := "ipv4", isVw := false } "dstAddr" 32 .lpm

def vlanId : Hlir.KeyElement :=
  Hlir.Header.field { name := "vlan", isVw := false } "vid" 12 .exact

def lpmTable (name : String) (ks : List Hlir.KeyElement) : Hlir.Table :=
  { name := cStr name
    key := some ks
    keyLengthBytes := (ks.map getKeyByteWidth).sum
    matchType := .lpm
    actions := [L2fwd.forwardAction] }

def routes : Hlir.Table := lpmTable "routes" [dstAddr]

def vlanRoutes : Hlir.Table := lpmTable "vlan_routes" [vlanId, dstAddr]

def routing : Hlir.Program :=
  { tables := [routes, vlanRoutes], metafieldSize := fun _ => 0 }

def routingCode : Code :=
  { reverseBufferSize := 6
    tables := [tableCode routing routes [dstAddr], tableCode routing vlanRoutes [vlanId, dstAddr]] }

theorem builds_routing : Builds routing routingCode where
  generated := rfl
  table_names := by decide
  compiles := by decide
  unshadowed := by decide

theorem lpm_routes : LpmTable routing routes [dstAddr] 0 dstAddr where
  mem := by decide
  match_type := rfl
  header := by
    intro k hk
    obtain rfl := List.mem_singleton.mp hk
    exact ⟨_, rfl, rfl⟩
  not_meta := by decide
  field_at := rfl
  lpm := rfl
  exact := by
    intro i k hi hne
    cases i with
    | zero => exact absurd rfl hne
    | succ i => cases hi
  key_length := rfl

theorem lpm_vlanRoutes : LpmTable routing vlanRoutes [vlanId, dstAddr] 1 dstAddr where
  mem := by decide
  match_type := rfl
  header := by
    intro k hk
    rcases List.mem_cons.mp hk with rfl | hk
    · exact ⟨_, rfl, rfl⟩
    · obtain rfl := List.mem_singleton.mp hk
      exact ⟨_, rfl, rfl⟩
  not_meta := by decide
  field_at := rfl
  lpm := rfl
  exact := by
    intro i k hi hne
    match i with
    | 0 =>
        obtain rfl := Option.some.inj hi
        rfl
    | 1 => exact absurd rfl hne
    | i + 2 => cases hi
  key_length := rfl

def p4info : P4Config.P4Info :=
  { tables :=
      [{ preamble := { id := 33554433, name := "routes" }
         matchFields := [{ id := 1, name := "ipv4.dstAddr", bitwidth := 32 }]
         actionRefs := [16811908] },
       { preamble := { id := 33554434, name := "vlan_routes" }
         matchFields :=
           [{ id := 1, name := "vlan.vid", bitwidth := 12 },
            { id := 2, name := "ipv4.dstAddr", bitwidth := 32 }]
         actionRefs := [16811908] }]
    actions := [L2fwd.forward]
    counters := []
    digests := [] }

def server : Server := L2fwd.serverAfter p4info

theorem reachable_server : Reachable 1 server (some p4info) := L2fwd.reachable_of_served rfl

def toSubnet (fieldId : UInt32) : FieldMatch :=
  { fieldId := fieldId, fieldMatchType := .lpm [10, 0, 1, 0] 24 }

def insertRoute : TableEntry :=
  { tableId := 33554433
    matchList := [toSubnet 1]
    action := .action L2fwd.forwardPort
    isDefaultAction := false }

def insertVlanRoute : TableEntry :=
  { tableId := 33554434
    matchList := [{ fieldId := 1, fieldMatchType := .exact [0, 5] }, toSubnet 2]
    action := .action L2fwd.forwardPort
    isDefaultAction := false }

def portParam : ActionParameter := { name := cStr "port", length := 9, bitmap := [0, 3] }

def subnetRecord : FieldMatchRecord := .lpm (cStr "ipv4.dstAddr") 24 [10, 0, 1, 0]

def routeMsg : CtrlMsg :=
  { type := .addTableEntry
    tableName := cStr "routes"
    fieldMatches := [subnetRecord]
    actionName := cStr "forward"
    actionParams := [portParam] }

def vlanRouteMsg : CtrlMsg :=
  { routeMsg with
    tableName := cStr "vlan_routes"
    fieldMatches := [.exact (cStr "vlan.vid") 12 [0, 5], subnetRecord] }

theorem accepted_route :
    AcceptedInsert server.dm routes [dstAddr] insertRoute routeMsg 24 where
  accepted := rfl
  requested := rfl
  adds := rfl
  table_name := rfl
  selects := ⟨L2fwd.forwardAction, by decide, by decide⟩
  in_range := by decide

theorem accepted_vlanRoute :
    AcceptedInsert server.dm vlanRoutes [vlanId, dstAddr] insertVlanRoute vlanRouteMsg 24 where
  accepted := rfl
  requested := rfl
  adds := rfl
  table_name := rfl
  selects := ⟨L2fwd.forwardAction, by decide, by decide⟩
  in_range := by decide

theorem route_depth :
    DepthRight packedLayout routingCode server.dm insertRoute routes [dstAddr] dstAddr 24 :=
  (lpm_depth_iff builds_routing.toEmits lpm_routes accepted_route).mpr
    { in_place := ⟨_, _, _, rfl⟩, no_exact := rfl, in_range := by decide, fits_byte := by decide }
    packedLayout packedLayout_lawful

theorem vlan_route_depth_wrong :
    Reachable 1 server (some p4info) ∧ Builds routing routingCode ∧
      LpmTable routing vlanRoutes [vlanId, dstAddr] 1 dstAddr ∧
      AcceptedInsert server.dm vlanRoutes [vlanId, dstAddr] insertVlanRoute vlanRouteMsg 24 ∧
      ¬∀ layout : RecordLayout, layout.Lawful →
        DepthRight layout routingCode server.dm insertVlanRoute vlanRoutes [vlanId, dstAddr] dstAddr 24 := by
  refine ⟨reachable_server, builds_routing, lpm_vlanRoutes, accepted_vlanRoute, fun h => ?_⟩
  have hcond := condition_of_right builds_routing.toEmits lpm_vlanRoutes accepted_vlanRoute h
  exact absurd hcond.no_exact (by decide)

end LpmDepth

end Switch
