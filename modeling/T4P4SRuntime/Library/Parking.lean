import Mathlib.Order.Interval.Finset.Nat
import T4P4SRuntime.Library.FirstBinding

namespace Parking

open Probing FirstBinding

variable {K V : Type} (S : Scheme K V)

def demand (ks : List K) (p : Nat) : Nat := ks.countP (fun k => p ≤ S.home k)

def room (s : Slots V) (p : Nat) : Nat :=
  ((Finset.Ico p S.size).filter (fun i => (s i).isNone)).card

def AllPlaced : Slots V → List V → Prop
  | _, [] => True
  | s, v :: vs => (S.insert s v).1 ≠ none ∧ AllPlaced (S.insert s v).2 vs

def insertAll (s : Slots V) (vs : List V) : Slots V := vs.foldl (fun s v => (S.insert s v).2) s

variable {S} {s : Slots V}

theorem demand_cons (k : K) (ks : List K) (p : Nat) :
    demand S (k :: ks) p = demand S ks p + if p ≤ S.home k then 1 else 0 := by
  simp [demand, List.countP_cons]

theorem demand_antitone (ks : List K) {p q : Nat} (h : p ≤ q) : demand S ks q ≤ demand S ks p := by
  apply List.countP_mono_left
  intro k _ hk
  simp only [decide_eq_true_eq] at hk ⊢
  omega

theorem room_eq_zero {p : Nat} (h : ∀ j, p ≤ j → j < S.size → s j ≠ none) : room S s p = 0 := by
  rw [room, Finset.card_eq_zero, Finset.filter_eq_empty_iff]
  intro i hi
  rw [Finset.mem_Ico] at hi
  simpa using h i hi.1 hi.2

theorem room_empty (p : Nat) : room S (Slots.empty : Slots V) p = S.size - p := by
  simp [room, Slots.empty]

theorem room_store {i p : Nat} {v : V} (hi : i < S.size) (hn : s i = none) :
    room S s p = room S (s.store i v) p + if p ≤ i then 1 else 0 := by
  have herase : (Finset.Ico p S.size).filter (fun j => (s.store i v j).isNone) =
      ((Finset.Ico p S.size).filter (fun j => (s j).isNone)).erase i := by
    ext j
    rcases eq_or_ne j i with hj | hj
    · simp [hj]
    · simp [hj, store_other s v hj]
  rw [room, room, herase]
  split
  · rename_i hp
    have hmem : i ∈ (Finset.Ico p S.size).filter (fun j => (s j).isNone) := by simp [hp, hi, hn]
    rw [Finset.card_erase_of_mem hmem]
    have hpos := Finset.card_pos.mpr ⟨i, hmem⟩
    omega
  · rename_i hp
    rw [Finset.erase_eq_of_notMem (by simp [hp])]
    rfl

theorem room_eq_of_full {p i : Nat} (hpi : p ≤ i) (h : ∀ j, p ≤ j → j < i → s j ≠ none) :
    room S s p = room S s i := by
  rw [room, room]
  congr 1
  ext j
  simp only [Finset.mem_filter, Finset.mem_Ico]
  constructor
  · rintro ⟨⟨hpj, hj⟩, hn⟩
    refine ⟨⟨?_, hj⟩, hn⟩
    by_contra hc
    exact h j hpj (by omega) (by simpa using hn)
  · rintro ⟨⟨hij, hj⟩, hn⟩
    exact ⟨⟨by omega, hj⟩, hn⟩

-- Placing one key takes one free slot from every suffix that holds its slot, and the suffixes
-- between its home and its slot were full up to that slot.
theorem covers_cons_iff {v : V} {i : Nat} {ks : List K} (hv : S.vacancy s (S.key v) = some i) :
    (∀ p, demand S (S.key v :: ks) p ≤ room S s p) ↔
      ∀ p, demand S ks p ≤ room S (s.store i v) p := by
  obtain ⟨hle, hlt, hn, hfull⟩ := Scheme.vacancy_eq_some_iff.mp hv
  constructor
  · intro h p
    have hp := h p
    rw [demand_cons, room_store (v := v) hlt hn] at hp
    by_cases hph : p ≤ S.home (S.key v)
    · simp only [hph, if_true, show p ≤ i by omega] at hp
      omega
    · by_cases hpi : p ≤ i
      · have hhome := h (S.home (S.key v))
        rw [demand_cons, room_eq_of_full hle hfull,
          ← room_eq_of_full hpi (fun j hj hji => hfull j (by omega) hji),
          room_store (v := v) hlt hn] at hhome
        simp only [le_refl, if_true, hpi] at hhome
        have hmono : demand S ks p ≤ demand S ks (S.home (S.key v)) := demand_antitone ks (by omega)
        omega
      · simp only [hph, hpi, if_false] at hp
        omega
  · intro h p
    have hp := h p
    rw [demand_cons, room_store (v := v) hlt hn]
    by_cases hph : p ≤ S.home (S.key v)
    · simp only [hph, if_true, show p ≤ i by omega]
      omega
    · simp only [hph, if_false]
      omega

theorem allPlaced_iff {vs : List V} :
    AllPlaced S s vs ↔ ∀ p, demand S (vs.map S.key) p ≤ room S s p := by
  induction vs generalizing s with
  | nil => simp [AllPlaced, demand]
  | cons v vs ih =>
      cases hv : S.vacancy s (S.key v) with
      | none =>
          simp only [AllPlaced, Scheme.insert_of_full hv, ne_eq, not_true_eq_false, false_and, false_iff]
          intro h
          have hhome := h (S.home (S.key v))
          rw [room_eq_zero (Scheme.vacancy_eq_none_iff.mp hv), List.map_cons, demand_cons] at hhome
          simp at hhome
      | some i =>
          simp only [AllPlaced, Scheme.insert_of_vacancy hv, List.map_cons, ne_eq, reduceCtorEq,
            not_false_eq_true, true_and]
          rw [ih, covers_cons_iff hv]

theorem allPlaced_congr {vs ws : List V} (h : vs.map S.key = ws.map S.key) :
    AllPlaced S s vs ↔ AllPlaced S s ws := by
  rw [allPlaced_iff, allPlaced_iff, h]

theorem allPlaced_append {vs ws : List V} :
    AllPlaced S s (vs ++ ws) ↔ AllPlaced S s vs ∧ AllPlaced S (insertAll S s vs) ws := by
  induction vs generalizing s with
  | nil => simp [AllPlaced, insertAll]
  | cons v vs ih => simp [AllPlaced, insertAll, ih, and_assoc]

theorem insertAll_append (vs ws : List V) :
    insertAll S s (vs ++ ws) = insertAll S (insertAll S s vs) ws := by
  simp [insertAll]

theorem lookup_insertAll [DecidableEq K] {vs : List V} (hp : S.Packed s) (h : AllPlaced S s vs)
    (k : K) : S.lookup (insertAll S s vs) k =
      (S.lookup s k).or (vs.find? (fun v => S.key v = k)) := by
  induction vs generalizing s with
  | nil => simp [insertAll]
  | cons v vs ih =>
      obtain ⟨hv, hrest⟩ := h
      obtain ⟨i, hi⟩ : ∃ i, S.vacancy s (S.key v) = some i := by
        cases hvac : S.vacancy s (S.key v) with
        | none => simp [Scheme.insert_of_full hvac] at hv
        | some i => exact ⟨i, rfl⟩
      have hins : insertAll S s (v :: vs) = insertAll S (s.store i v) vs := by
        simp [insertAll, Scheme.insert_of_vacancy hi]
      rw [Scheme.insert_of_vacancy hi] at hrest
      rw [hins, ih (Scheme.packed_store hp hi) hrest, Scheme.lookup_store hp hi]
      rcases eq_or_ne (S.key v) k with hk | hk
      · simp [hk]
      · simp [hk]

end Parking
