import T4P4SRuntime.Library.Parking
import T4P4SRuntime.Device.Pipeline

namespace Device

open IdMap P4Config Exec Probing Parking

structure Decl where
  id : UInt32
  name : String
  args : List FieldDecl
  deriving DecidableEq, Repr

def tableDecl (table : Table) : Decl :=
  { id := table.preamble.id, name := table.preamble.name, args := table.matchFields }

def actionDecl (action : P4Config.Action) : Decl :=
  { id := action.preamble.id, name := action.preamble.name, args := action.params }

def counterDecl (counter : Counter) : Decl :=
  { id := counter.preamble.id, name := counter.preamble.name, args := [] }

def declarations (p4info : P4Info) : List Decl :=
  p4info.tables.map tableDecl ++ p4info.actions.map actionDecl ++ p4info.counters.map counterDecl

def Decl.Fits (d : Decl) : Prop :=
  d.args.length ≤ maxArgs ∧ ∀ f ∈ d.args, strlen (cStr f.name) < maxNameSize

instance (d : Decl) : Decidable d.Fits := inferInstanceAs (Decidable (_ ∧ ∀ f ∈ d.args, _))

abbrev FitDecl := { d : Decl // d.Fits }

def FitDecl.element (d : FitDecl) : Element :=
  { value := cStr d.val.name
    key := d.val.id.toUInt64
    args := d.val.args.pmap argumentOf d.property.2
    args_fit := by simpa using d.property.1 }

def registered (map : Map) (ds : List FitDecl) : Map :=
  ⟨insertAll scheme map.data (ds.map FitDecl.element)⟩

def register (map : Map) (d : Decl) : Run Map :=
  let added := addElement map d.id.toUInt64 (cStr d.name)
  storeArgs added.2 added.1 d.args

def registerAll (map : Map) : List Decl → Run Map
  | [] => pure map
  | d :: ds => do
      let map ← register map d
      registerAll map ds

theorem registerAll_append (map : Map) (ds es : List Decl) :
    registerAll map (ds ++ es) = registerAll map ds >>= fun map => registerAll map es := by
  induction ds generalizing map with
  | nil => simp [registerAll]
  | cons d ds ih => simp [registerAll, ih]

theorem actionLoop_eq (map : Map) (actions : List P4Config.Action) :
    actionLoop map actions = registerAll map (actions.map actionDecl) := by
  induction actions generalizing map with
  | nil => rfl
  | cons action actions ih => simp [actionLoop, registerAll, register, actionDecl, ih]

theorem counterLoop_eq (map : Map) (counters : List Counter) :
    pure (counterLoop map counters) = registerAll map (counters.map counterDecl) := by
  induction counters generalizing map with
  | nil => rfl
  | cons counter counters ih =>
      simp only [List.map_cons, registerAll, register, counterDecl, storeArgs, pure_bind]
      exact ih _

theorem storeArgs_eq (decls : List FieldDecl) {map : Map} {slot : Nat} {elem : Element}
    (hs : map.data slot = some elem) (hlen : elem.args.length + decls.length ≤ maxArgs)
    (hn : ∀ f ∈ decls, strlen (cStr f.name) < maxNameSize) :
    ∃ elem', storeArgs map (some slot) decls = pure ⟨map.data.store slot elem'⟩ ∧
      elem'.value = elem.value ∧ elem'.key = elem.key ∧
      elem'.args = elem.args ++ decls.pmap argumentOf hn := by
  induction decls generalizing map elem with
  | nil => exact ⟨elem, by rw [store_self hs]; rfl, rfl, rfl, by simp⟩
  | cons decl decls ih =>
      have hname := hn decl (by simp)
      have hroom : elem.args.length < maxArgs := by
        rw [List.length_cons] at hlen
        omega
      obtain ⟨elem', he, hv, hk, ha⟩ :=
        @ih ⟨map.data.store slot (appendArg elem (argumentOf decl hname) hroom)⟩ _
          (store_same map.data slot _)
          (by simp only [appendArg, List.length_append, List.length_cons, List.length_nil] at hlen ⊢
              omega)
          (fun f hf => hn f (by simp [hf]))
      refine ⟨elem', ?_, hv, hk, ?_⟩
      · simpa [storeArgs, storeArg, hs, hname, hroom] using he
      · simpa [appendArg] using ha

theorem register_eq {map : Map} (d : FitDecl) {i : Nat}
    (hv : vacantSlot map d.val.id.toUInt64 = some i) :
    register map d.val = pure ⟨map.data.store i d.element⟩ := by
  have hadd : addElement map d.val.id.toUInt64 (cStr d.val.name) =
      (some i, ⟨map.data.store i (newElement d.val.id.toUInt64 (cStr d.val.name))⟩) := by
    simp [addElement, hv]
  obtain ⟨elem', he, hval, hk, ha⟩ := @storeArgs_eq d.val.args
    ⟨map.data.store i (newElement d.val.id.toUInt64 (cStr d.val.name))⟩ _ _
    (store_same _ _ _) (by simpa [newElement] using d.property.1) d.property.2
  have hel : elem' = d.element := Element.ext hval hk (by simpa [newElement, FitDecl.element] using ha)
  rw [register, hadd, he, hel]
  simp

theorem vacantSlot_of_placed {map : Map} {d : FitDecl}
    (h : (scheme.insert map.data d.element).1 ≠ none) :
    ∃ i, vacantSlot map d.val.id.toUInt64 = some i ∧
      scheme.insert map.data d.element = (some i, map.data.store i d.element) := by
  cases hv : scheme.vacancy map.data (scheme.key d.element) with
  | none => simp [Scheme.insert_of_full hv] at h
  | some i => exact ⟨i, by rw [vacantSlot_eq]; exact hv, Scheme.insert_of_vacancy hv⟩

theorem registerAll_eq (ds : List FitDecl) {map : Map}
    (h : AllPlaced scheme map.data (ds.map FitDecl.element)) :
    registerAll map (ds.map Subtype.val) =
      pure (registered map ds) := by
  induction ds generalizing map with
  | nil => rfl
  | cons d ds ih =>
      obtain ⟨hd, hrest⟩ := h
      obtain ⟨i, hv, hins⟩ := vacantSlot_of_placed hd
      rw [hins] at hrest
      simp only [List.map_cons, registerAll, register_eq d hv, pure_bind]
      rw [ih hrest]
      simp [registered, insertAll, hins]

-- The `break` is taken only when a table finds no slot.
theorem tableLoop_eq (ds : List FitDecl) {map : Map} {tables : List Table}
    (ht : tables.map tableDecl = ds.map Subtype.val)
    (h : AllPlaced scheme map.data (ds.map FitDecl.element)) :
    tableLoop map tables = registerAll map (tables.map tableDecl) := by
  induction ds generalizing map tables with
  | nil =>
      obtain rfl : tables = [] := by simpa using ht
      rfl
  | cons d ds ih =>
      obtain ⟨table, tables, rfl, hd, hts⟩ := List.map_eq_cons_iff.mp ht
      obtain ⟨hdp, hrest⟩ := h
      obtain ⟨i, hv, hins⟩ := vacantSlot_of_placed hdp
      rw [hins] at hrest
      have hadd : addElement map table.preamble.id.toUInt64 (cStr table.preamble.name) =
          (some i, ⟨map.data.store i
            (newElement table.preamble.id.toUInt64 (cStr table.preamble.name))⟩) := by
        rw [← hd] at hv
        simp only [tableDecl] at hv
        simp [addElement, hv]
      have hreg : register map (tableDecl table) = pure ⟨map.data.store i d.element⟩ := by
        rw [hd]
        exact register_eq d hv
      have hstore : storeArgs ⟨map.data.store i
          (newElement table.preamble.id.toUInt64 (cStr table.preamble.name))⟩ (some i)
            table.matchFields = pure ⟨map.data.store i d.element⟩ := by
        rw [← hreg, register]
        simp only [tableDecl, hadd]
      simp only [tableLoop, hadd, hstore, pure_bind, List.map_cons, registerAll, hreg]
      exact ih hts hrest

theorem loadP4info_eq (ds : List FitDecl) {map : Map} {p4info : P4Info}
    (hd : declarations p4info = ds.map Subtype.val)
    (h : AllPlaced scheme map.data (ds.map FitDecl.element)) :
    loadP4info map p4info = pure (registered map ds) := by
  rw [← registerAll_eq ds h, ← hd, declarations, registerAll_append, registerAll_append]
  rw [declarations, List.append_assoc] at hd
  obtain ⟨ds₁, ds₂, rfl, hd₁, -⟩ := List.append_eq_map_iff.mp hd
  rw [List.map_append, allPlaced_append] at h
  rw [loadP4info, tableLoop_eq ds₁ hd₁.symm h.1]
  simp [actionLoop_eq, counterLoop_eq]

theorem getElement_registered (ds : List FitDecl) {map : Map} (hp : scheme.Packed map.data)
    (h : AllPlaced scheme map.data (ds.map FitDecl.element)) (k : UInt64) :
    getElement (registered map ds) k =
      (getElement map k).or
        ((ds.find? (fun d => d.val.id.toUInt64 = k)).map FitDecl.element) := by
  rw [getElement_eq, getElement_eq, registered, lookup_insertAll hp h, List.find?_map]
  rfl

end Device
