import T4P4SRuntime.Codegen.KeyLayout
import T4P4SRuntime.Library.Positional

namespace Codegen

open Hlir Positional

inductive Role where
  | value
  | prefixLength
  | mask
  deriving DecidableEq, Repr

-- A key element that `${table}_add` and its callers can be generated for.
inductive KeyItem (k : KeyElement) : Prop where
  | field {header : Header} : k.header = some header → KeyItem k
  | metadata : isMeta k = true → k.matchType = .exact → KeyItem k
  | special : isSpecial k = true → KeyItem k

def roleParam (program : Program) (k : KeyElement) : Role → AddParam
  | .value => .bytes (valueVar k) (byteWidth program k)
  | .prefixLength => .prefixLength (prefixVar k)
  | .mask => .bytes (maskVar k) (byteWidth program k)

-- `0 /* TODO dstPort_mask */` stands where a mask is passed.
def roleArg (k : KeyElement) : Role → AddArg
  | .value => .var (valueVar k)
  | .prefixLength => .var (prefixVar k)
  | .mask => .zero

def Decl.index : Decl → Nat
  | .exactBitmap _ i | .lpmBitmap _ i | .lpmPrefixLength _ i => i

def Decl.role : Decl → Role
  | .exactBitmap _ _ | .lpmBitmap _ _ => .value
  | .lpmPrefixLength _ _ => .prefixLength

structure Agrees (program : Program) (decls : List Decl) (i : Nat) (k : KeyElement) (role : Role)
    (param : AddParam) (arg : AddArg) : Prop where
  param_eq : param = roleParam program k role
  arg_eq : arg = roleArg k role
  declared : ∀ var, arg = .var var →
    ∃ decl ∈ decls, decl.var = var ∧ decl.index = i ∧ decl.role = role

structure CallAgrees (program : Program) (table : TableCode) (ks : List KeyElement)
    (branch : EntryBranch) : Prop where
  same_length : branch.args.length = table.add.params.length
  trailing : table.add.params.getLast? = some .action ∧ branch.args.getLast? = some .action
  same_role : ∀ n param arg, n + 1 < branch.args.length → table.add.params[n]? = some param →
    branch.args[n]? = some arg → ∃ i k role, ks[i]? = some k ∧
      InBlock (addParamsOf program) ks i n ∧ InBlock addArgsOf ks i n ∧
      Agrees program table.decls i k role param arg

variable {program : Program} {table : Table} {ks : List KeyElement} {k : KeyElement} {i n : Nat}

def rolesOf (k : KeyElement) : List Role :=
  if isSpecial k then []
  else
    match k.matchType with
    | .exact => [.value]
    | .lpm => [.value, .prefixLength]
    | .ternary => [.value, .mask]

theorem addParamsOf_eq (program : Program) (k : KeyElement) :
    addParamsOf program k = (rolesOf k).map (roleParam program k) := by
  cases hs : isSpecial k with
  | true => simp [addParamsOf, rolesOf, hs]
  | false => cases ht : k.matchType <;> simp [addParamsOf, rolesOf, hs, ht, roleParam]

theorem addArgsOf_eq (k : KeyElement) : addArgsOf k = (rolesOf k).map (roleArg k) := by
  cases hs : isSpecial k with
  | true => simp [addArgsOf, rolesOf, hs]
  | false => cases ht : k.matchType <;> simp [addArgsOf, rolesOf, hs, ht, roleArg]

theorem addParamsOf_length (program : Program) (k : KeyElement) :
    (addParamsOf program k).length = (addArgsOf k).length := by
  rw [addParamsOf_eq, addArgsOf_eq, List.length_map, List.length_map]

theorem flatMap_length (program : Program) (ks : List KeyElement) :
    (ks.flatMap (addParamsOf program)).length = (ks.flatMap addArgsOf).length := by
  rw [List.length_flatMap, List.length_flatMap,
    List.map_congr_left fun k _ => addParamsOf_length program k]

theorem KeyItem.generable (h : KeyItem k) : raisesAttributeError k = false := by
  cases h with
  | field hh => simp [raisesAttributeError, hh]
  | metadata _ he => simp [raisesAttributeError, he]
  | special hs =>
      have hm : isMeta k = false := by
        rw [isSpecial, Bool.and_eq_true] at hs
        simpa using hs.2
      simp [raisesAttributeError, hm]

theorem not_special_of_role {role : Role} (h : role ∈ rolesOf k) : isSpecial k = false := by
  cases hs : isSpecial k with
  | true => simp [rolesOf, hs] at h
  | false => rfl

theorem mem_decls {decl : Decl} (hk : ks[i]? = some k) (hd : decl ∈ declsOf k i) :
    decl ∈ (tableCode program table ks).decls := by
  have hmem : (k, i) ∈ ks.zipIdx := List.mk_mem_zipIdx_iff_getElem?.mpr hk
  exact List.mem_flatMap.mpr ⟨(k, i), hmem, hd⟩

theorem declared_value (h : KeyItem k) (hs : isSpecial k = false) (i : Nat) :
    ∃ decl ∈ declsOf k i, decl.var = valueVar k ∧ decl.index = i ∧ decl.role = .value := by
  rcases eq_or_ne k.matchType .exact with he | he
  · exact ⟨.exactBitmap (valueVar k) i, by simp [declsOf, hs, he], rfl, rfl, rfl⟩
  · rw [declsOf_ranged i hs h.generable he]
    exact ⟨.lpmBitmap (valueVar k) i, List.mem_cons_self, rfl, rfl, rfl⟩

theorem declared_prefixLength (h : KeyItem k) (hr : Role.prefixLength ∈ rolesOf k) (i : Nat) :
    ∃ decl ∈ declsOf k i, decl.var = prefixVar k ∧ decl.index = i ∧
      decl.role = .prefixLength := by
  have hs := not_special_of_role hr
  have hlpm : k.matchType = .lpm := by
    cases ht : k.matchType with
    | lpm => rfl
    | exact | ternary => simp [rolesOf, hs, ht] at hr
  rw [declsOf_ranged i hs h.generable (by simp [hlpm])]
  exact ⟨.lpmPrefixLength (prefixVar k) i, by simp, rfl, rfl, rfl⟩

theorem agrees_of_role (h : KeyItem k) (hk : ks[i]? = some k) {role : Role}
    (hr : role ∈ rolesOf k) :
    Agrees program (tableCode program table ks).decls i k role (roleParam program k role)
      (roleArg k role) where
  param_eq := rfl
  arg_eq := rfl
  declared := fun var hvar => by
    cases role with
    | value =>
        obtain rfl := AddArg.var.inj hvar
        obtain ⟨decl, hd, hdecl⟩ := declared_value h (not_special_of_role hr) i
        exact ⟨decl, mem_decls hk hd, hdecl⟩
    | prefixLength =>
        obtain rfl := AddArg.var.inj hvar
        obtain ⟨decl, hd, hdecl⟩ := declared_prefixLength h hr i
        exact ⟨decl, mem_decls hk hd, hdecl⟩
    | mask => cases hvar

theorem same_role_at {param : AddParam} {arg : AddArg} (h : ∀ k ∈ ks, KeyItem k)
    (hparam : (ks.flatMap (addParamsOf program))[n]? = some param)
    (harg : (ks.flatMap addArgsOf)[n]? = some arg) :
    ∃ i k role, ks[i]? = some k ∧ InBlock (addParamsOf program) ks i n ∧
      InBlock addArgsOf ks i n ∧
      Agrees program (tableCode program table ks).decls i k role param arg := by
  have hlt := (List.getElem?_eq_some_iff.mp hparam).1
  have hlength : ∀ k ∈ ks, (addParamsOf program k).length = (addArgsOf k).length :=
    fun k _ => addParamsOf_length program k
  obtain ⟨i, k, hk, hblock⟩ := exists_block hlt
  have hblock' : InBlock addArgsOf ks i n := hblock.congr hlength
  rw [getElem?_flatMap hk hblock, addParamsOf_eq, List.getElem?_map] at hparam
  rw [getElem?_flatMap hk hblock', ← blockStart_congr hlength, addArgsOf_eq,
    List.getElem?_map] at harg
  obtain ⟨role, hrole, rfl⟩ := Option.map_eq_some_iff.mp hparam
  rw [hrole, Option.map_some] at harg
  obtain rfl := Option.some.inj harg
  exact ⟨i, k, role, hk, hblock, hblock',
    agrees_of_role (h k (List.mem_of_getElem? hk)) hk (List.mem_of_getElem? hrole)⟩

theorem call_agrees (h : ∀ k ∈ ks, KeyItem k) :
    ∀ branch ∈ (tableCode program table ks).entryBranches,
      CallAgrees program (tableCode program table ks) ks branch := by
  intro branch hbranch
  obtain ⟨action, -, rfl⟩ := List.mem_map.mp hbranch
  have hparams : (tableCode program table ks).add.params =
      ks.flatMap (addParamsOf program) ++ [.action] := rfl
  have hargs : (entryBranch ks action).args = ks.flatMap addArgsOf ++ [.action] := rfl
  refine ⟨?_, ?_, ?_⟩
  · rw [hparams, hargs, List.length_append, List.length_append, flatMap_length program]
    rfl
  · rw [hparams, hargs, List.getLast?_concat, List.getLast?_concat]
    exact ⟨rfl, rfl⟩
  · intro n param arg hn hparam harg
    have hlt : n < (ks.flatMap addArgsOf).length := by
      rw [hargs, List.length_append, List.length_singleton] at hn
      exact Nat.lt_of_succ_lt_succ hn
    rw [hparams, List.getElem?_append_left (flatMap_length program ks ▸ hlt)] at hparam
    rw [hargs, List.getElem?_append_left hlt] at harg
    exact same_role_at h hparam harg

namespace CallAgreement

def isValid : KeyElement :=
  { header := none
    headerName := "ipv4"
    fieldName := "isValid"
    width := 1
    matchType := .exact
    header_named := fun _ h => by cases h }

def mixedKey : List KeyElement :=
  [Header.field { name := "tcp", isVw := false } "dstPort" 16 .ternary, isValid,
    Header.field { name := "ipv4", isVw := false } "dstAddr" 32 .lpm, KeyLayout.ingressPort,
    KeyLayout.dstAddr]

def forward : ActionObject :=
  { name := "forward", annotationName := cStr ".forward", parameters := [] }

def mixedTable : Table :=
  { name := cStr "acl"
    key := some mixedKey
    keyLengthBytes := 12
    matchType := .lpm
    actions := [forward] }

def mixedProgram : Program := { tables := [mixedTable], metafieldSize := fun _ => 2 }

example : (entryBranch mixedKey forward).args =
    [.var "field_instance_tcp_dstPort", .zero, .var "field_instance_ipv4_dstAddr",
      .var "field_instance_ipv4_dstAddr_prefix_length", .var "field_instance_meta_ingress_port",
      .var "field_instance_ethernet_dstAddr", .action] := by decide

theorem mixed_items : ∀ k ∈ mixedKey, KeyItem k := by
  intro k hk
  simp only [mixedKey, List.mem_cons, List.not_mem_nil, or_false] at hk
  rcases hk with rfl | rfl | rfl | rfl | rfl
  · exact .field rfl
  · exact .special (by decide)
  · exact .field rfl
  · exact .metadata (by decide) rfl
  · exact .field rfl

theorem call_agrees_mixed :
    CallAgrees mixedProgram (tableCode mixedProgram mixedTable mixedKey) mixedKey
      (entryBranch mixedKey forward) :=
  call_agrees mixed_items _ (List.mem_singleton_self _)

end CallAgreement

end Codegen
