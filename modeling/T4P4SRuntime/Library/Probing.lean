import Mathlib.Logic.Function.Basic
import T4P4SRuntime.Library.Scan

namespace Probing

open Scan

structure Scheme (K V : Type) where
  size : Nat
  home : K → Nat
  key : V → K

abbrev Slots (V : Type) := Nat → Option V

def Slots.empty {V : Type} : Slots V := fun _ => none

def Slots.store {V : Type} (s : Slots V) (i : Nat) (v : V) : Slots V := Function.update s i (some v)

@[simp] theorem store_same {V : Type} (s : Slots V) (i : Nat) (v : V) : s.store i v i = some v := by
  simp [Slots.store]

theorem store_other {V : Type} (s : Slots V) {i j : Nat} (v : V) (h : j ≠ i) :
    s.store i v j = s j := by
  simp [Slots.store, h]

@[simp] theorem store_store {V : Type} (s : Slots V) (i : Nat) (v w : V) :
    (s.store i v).store i w = s.store i w := by
  simp [Slots.store]

theorem store_self {V : Type} {s : Slots V} {i : Nat} {v : V} (h : s i = some v) :
    s.store i v = s := by
  rw [Slots.store, ← h, Function.update_eq_self]

namespace Scheme

variable {K V : Type} (S : Scheme K V)

def vacancy (s : Slots V) (k : K) : Option Nat :=
  scan (fun i =>
    match s i with
    | none => .found i
    | some _ => .next) (S.size - S.home k) (S.home k)

def insert (s : Slots V) (v : V) : Option Nat × Slots V :=
  match S.vacancy s (S.key v) with
  | none => (none, s)
  | some i => (some i, s.store i v)

def Packed (s : Slots V) : Prop :=
  ∀ i v, s i = some v →
    S.home (S.key v) ≤ i ∧ i < S.size ∧ ∀ j, S.home (S.key v) ≤ j → j < i → s j ≠ none

variable {S} {s : Slots V} {k : K} {i : Nat} {v : V}

theorem vacancy_eq_some_iff :
    S.vacancy s k = some i ↔
      S.home k ≤ i ∧ i < S.size ∧ s i = none ∧ ∀ j, S.home k ≤ j → j < i → s j ≠ none := by
  rw [vacancy, scan_eq_some_iff]
  constructor
  · rintro ⟨j, hle, hlt, hb, hall⟩
    cases hj : s j with
    | some v => simp [hj] at hb
    | none =>
        obtain rfl : j = i := by simpa [hj] using hb
        refine ⟨hle, by omega, hj, fun l hl hlj hsl => ?_⟩
        simpa [hsl] using hall l hl hlj
  · rintro ⟨hle, hlt, hn, hall⟩
    refine ⟨i, hle, by omega, by simp [hn], fun l hl hli => ?_⟩
    obtain ⟨w, hw⟩ := Option.ne_none_iff_exists'.mp (hall l hl hli)
    simp [hw]

theorem vacancy_eq_none_iff :
    S.vacancy s k = none ↔ ∀ j, S.home k ≤ j → j < S.size → s j ≠ none := by
  rw [vacancy, scan_eq_none_iff]
  constructor
  · rintro (hall | ⟨j, -, -, hb, -⟩) l hl hlt hn
    · simpa [hn] using hall l hl (by omega)
    · cases hj : s j <;> simp [hj] at hb
  · intro hall
    apply Or.inl
    intro l hl hlt
    obtain ⟨w, hw⟩ := Option.ne_none_iff_exists'.mp (hall l hl (by omega))
    simp [hw]

theorem vacancy_store_none (h : S.vacancy s k = none) :
    S.vacancy (s.store i v) k = none := by
  rw [vacancy_eq_none_iff] at h ⊢
  intro j hj hlt
  rcases eq_or_ne j i with hji | hji
  · simp [hji]
  · rw [store_other s v hji]
    exact h j hj hlt

theorem insert_of_vacancy (h : S.vacancy s (S.key v) = some i) :
    S.insert s v = (some i, s.store i v) := by
  simp [insert, h]

theorem insert_of_full (h : S.vacancy s (S.key v) = none) : S.insert s v = (none, s) := by
  simp [insert, h]

theorem packed_empty : S.Packed Slots.empty := by
  intro i v h
  simp [Slots.empty] at h

theorem packed_store (hp : S.Packed s) (hv : S.vacancy s (S.key v) = some i) :
    S.Packed (s.store i v) := by
  obtain ⟨hle, hlt, hn, hfull⟩ := vacancy_eq_some_iff.mp hv
  intro j w hj
  rcases eq_or_ne j i with rfl | hji
  · obtain rfl : v = w := by simpa using hj
    refine ⟨hle, hlt, fun l hl hlj => ?_⟩
    rw [store_other s v (by omega)]
    exact hfull l hl hlj
  · rw [store_other s v hji] at hj
    obtain ⟨hle', hlt', hfull'⟩ := hp j w hj
    refine ⟨hle', hlt', fun l hl hlj => ?_⟩
    rcases eq_or_ne l i with hli | hli
    · simp [hli]
    · rw [store_other s v hli]
      exact hfull' l hl hlj

variable [DecidableEq K]

def slotOf (S : Scheme K V) (s : Slots V) (k : K) : Option Nat :=
  scan (fun i =>
    match s i with
    | none => .stop
    | some v => if S.key v = k then .found i else .next) (S.size - S.home k) (S.home k)

def lookup (S : Scheme K V) (s : Slots V) (k : K) : Option V := (S.slotOf s k).bind s

theorem slotOf_eq_some_iff :
    S.slotOf s k = some i ↔
      S.home k ≤ i ∧ i < S.size ∧ (∃ v, s i = some v ∧ S.key v = k) ∧
        ∀ j, S.home k ≤ j → j < i → ∃ w, s j = some w ∧ S.key w ≠ k := by
  rw [slotOf, scan_eq_some_iff]
  constructor
  · rintro ⟨j, hle, hlt, hb, hall⟩
    cases hj : s j with
    | none => simp [hj] at hb
    | some v =>
        simp only [hj] at hb
        split at hb
        · rename_i hk
          obtain rfl : j = i := by simpa using hb
          refine ⟨hle, by omega, ⟨v, hj, hk⟩, fun l hl hlj => ?_⟩
          have hn := hall l hl hlj
          cases hsl : s l with
          | none => simp [hsl] at hn
          | some w =>
              refine ⟨w, rfl, fun hw => ?_⟩
              simp [hsl, hw] at hn
        · simp at hb
  · rintro ⟨hle, hlt, ⟨v, hv, hk⟩, hall⟩
    refine ⟨i, hle, by omega, by simp [hv, hk], fun l hl hli => ?_⟩
    obtain ⟨w, hw, hne⟩ := hall l hl hli
    simp [hw, hne]

theorem lookup_of_slotOf (h : S.slotOf s k = some i) : S.lookup s k = s i := by
  simp [lookup, h]

theorem lookup_eq_none_iff : S.lookup s k = none ↔ S.slotOf s k = none := by
  constructor
  · intro h
    cases hi : S.slotOf s k with
    | none => rfl
    | some i =>
        obtain ⟨-, -, ⟨v, hv, -⟩, -⟩ := slotOf_eq_some_iff.mp hi
        simp [lookup, hi, hv] at h
  · intro h
    simp [lookup, h]

theorem slotOf_empty : S.slotOf Slots.empty k = none := by
  cases h : S.slotOf Slots.empty k with
  | none => rfl
  | some i =>
      obtain ⟨-, -, ⟨v, hv, -⟩, -⟩ := slotOf_eq_some_iff.mp h
      simp [Slots.empty] at hv

theorem slotOf_of_mem (hp : S.Packed s) (hi : s i = some v) : S.slotOf s (S.key v) ≠ none := by
  intro hn
  obtain ⟨hle, hlt, hfull⟩ := hp i v hi
  rw [slotOf, scan_eq_none_iff] at hn
  rcases hn with hall | ⟨j, hj, hjs, hb, hall⟩
  · simpa [hi] using hall i hle (by omega)
  · -- the scan stopped at an empty slot, which packing puts past `i`
    have hsj : s j = none := by
      cases h : s j with
      | none => rfl
      | some w =>
          simp only [h] at hb
          split at hb <;> simp at hb
    have hij : i < j := by
      by_contra hc
      rcases Nat.eq_or_lt_of_le (Nat.le_of_not_lt hc) with rfl | hlt'
      · simp [hi] at hsj
      · exact hfull j hj hlt' hsj
    simpa [hi] using hall i hle hij

theorem slotOf_eq_none_iff (hp : S.Packed s) :
    S.slotOf s k = none ↔ ∀ i v, s i = some v → S.key v ≠ k := by
  constructor
  · rintro hn i v hi rfl
    exact slotOf_of_mem hp hi hn
  · intro hall
    cases h : S.slotOf s k with
    | none => rfl
    | some i =>
        obtain ⟨-, -, ⟨v, hv, hk⟩, -⟩ := slotOf_eq_some_iff.mp h
        exact absurd hk (hall i v hv)

theorem slotOf_store_of_some {j : Nat} (hn : s i = none) (hj : S.slotOf s k = some j) :
    S.slotOf (s.store i v) k = some j := by
  obtain ⟨hle, hlt, ⟨w, hw, hk⟩, hall⟩ := slotOf_eq_some_iff.mp hj
  have hji : j ≠ i := fun h => by simp [← h, hw] at hn
  refine slotOf_eq_some_iff.mpr ⟨hle, hlt, ⟨w, by rwa [store_other s v hji], hk⟩, ?_⟩
  intro l hl hlj
  obtain ⟨u, hu, hne⟩ := hall l hl hlj
  have hli : l ≠ i := fun h => by simp [← h, hu] at hn
  exact ⟨u, by rwa [store_other s v hli], hne⟩

theorem slotOf_store_ne (hp : S.Packed s) (hv : S.vacancy s (S.key v) = some i)
    (hk : S.key v ≠ k) : S.slotOf (s.store i v) k = S.slotOf s k := by
  have hn : s i = none := (vacancy_eq_some_iff.mp hv).2.2.1
  cases h : S.slotOf s k with
  | some j => exact slotOf_store_of_some hn h
  | none =>
      have hnone := (slotOf_eq_none_iff hp).mp h
      apply (slotOf_eq_none_iff (packed_store hp hv)).mpr
      intro j w hj
      rcases eq_or_ne j i with rfl | hji
      · obtain rfl : v = w := by simpa using hj
        exact hk
      · exact hnone j w (by rwa [store_other s v hji] at hj)

theorem slotOf_store_fresh (hp : S.Packed s) (hv : S.vacancy s (S.key v) = some i)
    (hk : S.slotOf s (S.key v) = none) : S.slotOf (s.store i v) (S.key v) = some i := by
  obtain ⟨hle, hlt, hn, hfull⟩ := vacancy_eq_some_iff.mp hv
  refine slotOf_eq_some_iff.mpr ⟨hle, hlt, ⟨v, by simp, rfl⟩, fun j hj hji => ?_⟩
  obtain ⟨w, hw⟩ := Option.ne_none_iff_exists'.mp (hfull j hj hji)
  refine ⟨w, by rwa [store_other s v (by omega)], (slotOf_eq_none_iff hp).mp hk j w hw⟩

theorem lookup_store (hp : S.Packed s) (hv : S.vacancy s (S.key v) = some i) (k : K) :
    S.lookup (s.store i v) k =
      (S.lookup s k).or (if S.key v = k then some v else none) := by
  have hn : s i = none := (vacancy_eq_some_iff.mp hv).2.2.1
  cases hk : S.slotOf s k with
  | some j =>
      obtain ⟨-, -, ⟨w, hw, -⟩, -⟩ := slotOf_eq_some_iff.mp hk
      have hji : j ≠ i := fun h => by simp [← h, hw] at hn
      rw [lookup_of_slotOf (slotOf_store_of_some hn hk), lookup_of_slotOf hk,
        store_other s v hji, hw]
      rfl
  | none =>
      rw [lookup_eq_none_iff.mpr hk, Option.none_or]
      rcases eq_or_ne (S.key v) k with rfl | hkv
      · rw [lookup_of_slotOf (slotOf_store_fresh hp hv hk), store_same, if_pos rfl]
      · rw [if_neg hkv, lookup_eq_none_iff, slotOf_store_ne hp hv hkv, hk]

end Scheme

end Probing
