import T4P4SRuntime.IdMap.Bindings
import T4P4SRuntime.Library.Overflow

namespace IdMap

open Probing Parking

variable {map : Map} {calls : List AddCall} {key : UInt64} {value : CString}

def AllSucceed (map : Map) (calls : List AddCall) : Prop :=
  ∀ result ∈ (addElements map calls).1, result ≠ none

def residue (key : UInt64) : Nat := key.toNat % maxHashSize

def atLeast (calls : List AddCall) (r : Nat) : Nat := calls.countP (fun c => r ≤ residue c.1)

def calledElements (calls : List AddCall) : List Element :=
  calls.map (fun c => newElement c.1 c.2)

theorem addElements_insertAll (map : Map) (calls : List AddCall) :
    (addElements map calls).2 = ⟨insertAll scheme map.data (calledElements calls)⟩ := by
  induction calls generalizing map with
  | nil => rfl
  | cons c cs ih =>
      rw [addElements, ih, addElement_eq]
      rfl

theorem allSucceed_iff (map : Map) (calls : List AddCall) :
    AllSucceed map calls ↔ AllPlaced scheme map.data (calledElements calls) := by
  induction calls generalizing map with
  | nil => simp [AllSucceed, addElements, calledElements, AllPlaced]
  | cons c cs ih =>
      rw [AllSucceed, addElements, List.forall_mem_cons]
      have hrest := ih (addElement map c.1 c.2).2
      rw [AllSucceed] at hrest
      rw [hrest, addElement_eq]
      rfl

theorem demand_calledElements (calls : List AddCall) (r : Nat) :
    demand scheme ((calledElements calls).map scheme.key) (r * redundancyMap) = atLeast calls r := by
  rw [demand, calledElements, List.map_map, List.countP_map, atLeast]
  apply List.countP_congr
  intro c _
  simp only [Function.comp_apply, decide_eq_true_eq]
  exact Nat.mul_le_mul_right_iff (by decide)

-- A home is a multiple of `redundancyMap`, so only the suffixes that start at one count.
theorem demand_le_room_iff :
    (∀ p, demand scheme ((calledElements calls).map scheme.key) p ≤
        room scheme (Slots.empty : Slots Element) p) ↔
      ∀ r, r < maxHashSize → atLeast calls r ≤ redundancyMap * (maxHashSize - r) := by
  simp only [room_empty]
  constructor
  · intro h r hr
    have hp := h (r * redundancyMap)
    rw [demand_calledElements] at hp
    simp only [scheme, maxMapSize, redundancyMap, maxHashSize] at hp hr ⊢
    omega
  · intro h p
    have hround : demand scheme ((calledElements calls).map scheme.key) p ≤
        atLeast calls ((p + 3) / redundancyMap) := by
      rw [← demand_calledElements]
      apply List.countP_mono_left
      intro k _ hk
      simp only [decide_eq_true_eq] at hk ⊢
      simp only [scheme, index, redundancyMap] at hk ⊢
      omega
    rcases Nat.lt_or_ge ((p + 3) / redundancyMap) maxHashSize with hlt | hge
    · have hr := h _ hlt
      simp only [scheme, maxMapSize, redundancyMap, maxHashSize] at hround hr hlt ⊢
      omega
    · have hnone : atLeast calls ((p + 3) / redundancyMap) = 0 := by
        rw [atLeast, List.countP_eq_zero]
        intro c _
        have hres : residue c.1 < maxHashSize := Nat.mod_lt _ (by decide)
        simp only [decide_eq_true_eq]
        omega
      omega

theorem allSucceed_init_iff (calls : List AddCall) :
    AllSucceed initMap calls ↔
      ∀ r, r < maxHashSize → atLeast calls r ≤ redundancyMap * (maxHashSize - r) := by
  rw [allSucceed_iff, allPlaced_iff, ← demand_le_room_iff]
  rfl

theorem addElement_none_iff :
    (addElement map key value).1 = none ↔ scheme.vacancy map.data key = none := by
  rw [addElement, vacantSlot_eq]
  cases scheme.vacancy map.data key <;> simp

theorem addElement_of_none (h : (addElement map key value).1 = none) :
    (addElement map key value).2 = map := by
  rw [addElement_none_iff, ← vacantSlot_eq] at h
  rw [addElement, h]

theorem addElement_none_of_residue {key' : UInt64} (h : (addElement map key value).1 = none)
    (hk : residue key ≤ residue key') (later : List AddCall) (value' : CString) :
    (addElement (addElements map later).2 key' value').1 = none := by
  rw [addElement_none_iff, Scheme.vacancy_eq_none_iff] at h ⊢
  intro j hj hlt
  rw [addElements_insertAll]
  apply insertAll_ne_none
  apply h j _ hlt
  simp only [scheme, index, residue] at hj hk ⊢
  exact (Nat.mul_le_mul_right redundancyMap hk).trans hj

theorem id_map_capacity_exact (calls : List AddCall) :
    (AllSucceed initMap calls ↔
        ∀ r, r < maxHashSize → atLeast calls r ≤ redundancyMap * (maxHashSize - r)) ∧
      (∀ calls', calls'.Perm calls → (AllSucceed initMap calls' ↔ AllSucceed initMap calls)) ∧
      ∀ key value, (addElement (addElements initMap calls).2 key value).1 = none →
        (addElement (addElements initMap calls).2 key value).2 = (addElements initMap calls).2 ∧
          ∀ later key' value', residue key ≤ residue key' →
            (addElement (addElements
              (addElement (addElements initMap calls).2 key value).2 later).2 key' value').1 =
                none := by
  refine ⟨allSucceed_init_iff calls, fun calls' hperm => ?_, fun key value hnone => ?_⟩
  · rw [allSucceed_init_iff, allSucceed_init_iff]
    simp only [atLeast, hperm.countP_eq]
  · have hsame := addElement_of_none hnone
    refine ⟨hsame, fun later key' value' hk => ?_⟩
    rw [hsame]
    exact addElement_none_of_residue hnone hk later value'

end IdMap
