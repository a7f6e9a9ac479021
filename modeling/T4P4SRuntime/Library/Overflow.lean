import T4P4SRuntime.Library.Parking

namespace Parking

open Probing FirstBinding

variable {K V : Type} (S : Scheme K V)

def arrivals (ks : List K) (q i : Nat) : Nat :=
  ks.countP (fun k => q ≤ S.home k ∧ S.home k ≤ i)

def taken (s : Slots V) (q i : Nat) : Nat :=
  ((Finset.Icc q i).filter (fun j => (s j).isSome)).card

def StaysFree (s : Slots V) (ks : List K) (i : Nat) : Prop :=
  ∀ q, q ≤ i → arrivals S ks q i + taken s q i ≤ i - q

def HasSlot (s : Slots V) (ks : List K) (k : K) : Prop :=
  ∃ i, i < S.size ∧ S.home k ≤ i ∧ StaysFree S s ks i

instance (s : Slots V) (ks : List K) (i : Nat) : Decidable (StaysFree S s ks i) :=
  inferInstanceAs (Decidable (∀ q, q ≤ i → _))

instance (s : Slots V) (ks : List K) (k : K) : Decidable (HasSlot S s ks k) :=
  inferInstanceAs (Decidable (∃ i, i < S.size ∧ _))

variable {S} {s : Slots V} {v : V} {ks : List K} {p q i : Nat}

theorem insertAll_cons (s : Slots V) (v : V) (vs : List V) :
    insertAll S s (v :: vs) = insertAll S (S.insert s v).2 vs := rfl

theorem arrivals_cons (k : K) (ks : List K) (q i : Nat) :
    arrivals S (k :: ks) q i =
      arrivals S ks q i + if q ≤ S.home k ∧ S.home k ≤ i then 1 else 0 := by
  simp [arrivals, List.countP_cons]

theorem arrivals_antitone (ks : List K) (h : p ≤ q) : arrivals S ks q i ≤ arrivals S ks p i := by
  apply List.countP_mono_left
  intro k _ hk
  simp only [decide_eq_true_eq] at hk ⊢
  omega

theorem taken_store (hn : s p = none) (q i : Nat) :
    taken (s.store p v) q i = taken s q i + if q ≤ p ∧ p ≤ i then 1 else 0 := by
  by_cases hp : q ≤ p ∧ p ≤ i
  · have hinsert : (Finset.Icc q i).filter (fun j => (s.store p v j).isSome) =
        insert p ((Finset.Icc q i).filter (fun j => (s j).isSome)) := by
      ext j
      rcases eq_or_ne j p with hj | hj
      · simp [hj, hp]
      · simp [hj, store_other s v hj]
    rw [taken, hinsert, Finset.card_insert_of_notMem (by simp [hn]), if_pos hp, taken]
  · have hsame : (Finset.Icc q i).filter (fun j => (s.store p v j).isSome) =
        (Finset.Icc q i).filter (fun j => (s j).isSome) := by
      ext j
      rcases eq_or_ne j p with hj | hj
      · simp [hj, hp]
      · simp [store_other s v hj]
    rw [taken, hsame, if_neg hp, taken]
    rfl

theorem taken_of_full (hpq : p ≤ q) (hqi : q ≤ i) (h : ∀ j, p ≤ j → j < q → s j ≠ none) :
    taken s p i = (q - p) + taken s q i := by
  have hsplit : (Finset.Icc p i).filter (fun j => (s j).isSome) =
      Finset.Ico p q ∪ (Finset.Icc q i).filter (fun j => (s j).isSome) := by
    ext j
    simp only [Finset.mem_filter, Finset.mem_Icc, Finset.mem_union, Finset.mem_Ico,
      Option.isSome_iff_ne_none]
    constructor
    · rintro ⟨hj, hs⟩
      rcases Nat.lt_or_ge j q with hlt | hge
      · exact Or.inl ⟨hj.1, hlt⟩
      · exact Or.inr ⟨⟨hge, hj.2⟩, hs⟩
    · rintro (hj | hj)
      · exact ⟨⟨hj.1, by omega⟩, h j hj.1 hj.2⟩
      · exact ⟨⟨by omega, hj.1.2⟩, hj.2⟩
  have hdisj : Disjoint (Finset.Ico p q) ((Finset.Icc q i).filter (fun j => (s j).isSome)) := by
    rw [Finset.disjoint_left]
    intro j hj hj'
    simp only [Finset.mem_Ico, Finset.mem_filter, Finset.mem_Icc] at hj hj'
    omega
  rw [taken, hsplit, Finset.card_union_of_disjoint hdisj, Nat.card_Ico, taken]

theorem taken_le_of_none (hn : s i = none) (q : Nat) : taken s q i ≤ i - q := by
  have hsub : (Finset.Icc q i).filter (fun j => (s j).isSome) ⊆ Finset.Ico q i := by
    intro j hj
    simp only [Finset.mem_filter, Finset.mem_Icc, Finset.mem_Ico] at hj ⊢
    have hji : j ≠ i := by
      rintro rfl
      simp [hn] at hj
    omega
  calc taken s q i ≤ (Finset.Ico q i).card := Finset.card_le_card hsub
    _ = i - q := Nat.card_Ico q i

theorem StaysFree.none (h : StaysFree S s ks i) : s i = none := by
  by_contra hs
  have hi := h i (Nat.le_refl i)
  have hfilter : (Finset.Icc i i).filter (fun j => (s j).isSome) = {i} := by
    ext j
    simp only [Finset.mem_filter, Finset.mem_Icc, Finset.mem_singleton]
    constructor
    · rintro ⟨hj, -⟩
      omega
    · rintro rfl
      exact ⟨⟨le_refl _, le_refl _⟩, Option.isSome_iff_ne_none.mpr hs⟩
  rw [taken, hfilter, Finset.card_singleton] at hi
  omega

theorem staysFree_nil_iff : StaysFree S s [] i ↔ s i = none := by
  constructor
  · exact StaysFree.none
  · intro hn q _
    have hle := taken_le_of_none hn q
    simp only [arrivals, List.countP_nil]
    omega

-- A key placed at `p` fills one slot of every interval around `p`; the intervals that start after
-- its home lose nothing more, because everything between its home and `p` was already full.
theorem staysFree_store_iff (hv : S.vacancy s (S.key v) = some p) :
    StaysFree S s (S.key v :: ks) i ↔ StaysFree S (s.store p v) ks i := by
  obtain ⟨hhome, -, hn, hfull⟩ := Scheme.vacancy_eq_some_iff.mp hv
  constructor
  · intro h q hq
    have hqi := h q hq
    rw [arrivals_cons] at hqi
    rw [taken_store hn]
    by_cases hp : q ≤ p ∧ p ≤ i
    · rw [if_pos hp]
      by_cases hh : q ≤ S.home (S.key v)
      · rw [if_pos ⟨hh, by omega⟩] at hqi
        omega
      · have hstart := h (S.home (S.key v)) (by omega)
        have hmono := arrivals_antitone (S := S) (i := i) ks (show S.home (S.key v) ≤ q by omega)
        rw [arrivals_cons, if_pos ⟨le_refl _, by omega⟩,
          taken_of_full (show S.home (S.key v) ≤ q by omega) hq
            (fun j hj hjq => hfull j hj (by omega))] at hstart
        omega
    · rw [if_neg hp]
      omega
  · intro h q hq
    have hqi := h q hq
    have hin := h.none
    rw [taken_store hn] at hqi
    rw [arrivals_cons]
    by_cases hh : q ≤ S.home (S.key v) ∧ S.home (S.key v) ≤ i
    · have hpi : p ≤ i := by
        by_contra hlt
        have hsi := hfull i hh.2 (by omega)
        rw [store_other s v (by omega)] at hin
        exact hsi hin
      rw [if_pos ⟨by omega, hpi⟩] at hqi
      rw [if_pos hh]
      omega
    · rw [if_neg hh]
      omega

theorem staysFree_full_iff (hv : S.vacancy s (S.key v) = none) (hi : i < S.size) :
    StaysFree S s (S.key v :: ks) i ↔ StaysFree S s ks i := by
  have hfull := Scheme.vacancy_eq_none_iff.mp hv
  have hbefore : s i = none → ¬S.home (S.key v) ≤ i := fun hn hle => hfull i hle hi hn
  constructor
  · intro h q hq
    have hqi := h q hq
    rw [arrivals_cons] at hqi
    omega
  · intro h q hq
    have hqi := h q hq
    rw [arrivals_cons, if_neg fun hc => hbefore h.none hc.2]
    omega

theorem insertAll_eq_none_iff (vs : List V) (hi : i < S.size) :
    insertAll S s vs i = none ↔ StaysFree S s (vs.map S.key) i := by
  induction vs generalizing s with
  | nil => exact staysFree_nil_iff.symm
  | cons v vs ih =>
      rw [insertAll_cons, ih, List.map_cons]
      cases hv : S.vacancy s (S.key v) with
      | none => rw [Scheme.insert_of_full hv, staysFree_full_iff hv hi]
      | some p => rw [Scheme.insert_of_vacancy hv, staysFree_store_iff hv]

theorem hasSlot_iff (vs : List V) (k : K) :
    HasSlot S s (vs.map S.key) k ↔ S.vacancy (insertAll S s vs) k ≠ none := by
  rw [ne_eq, Scheme.vacancy_eq_none_iff]
  constructor
  · rintro ⟨i, hi, hhome, hfree⟩ hfull
    exact hfull i hhome hi ((insertAll_eq_none_iff vs hi).mpr hfree)
  · intro h
    push Not at h
    obtain ⟨i, hhome, hi, hn⟩ := h
    exact ⟨i, hi, hhome, (insertAll_eq_none_iff vs hi).mp hn⟩

theorem packed_insert (hp : S.Packed s) (v : V) : S.Packed (S.insert s v).2 := by
  cases hv : S.vacancy s (S.key v) with
  | none =>
      rw [Scheme.insert_of_full hv]
      exact hp
  | some p =>
      rw [Scheme.insert_of_vacancy hv]
      exact Scheme.packed_store hp hv

theorem packed_insertAll (hp : S.Packed s) (vs : List V) : S.Packed (insertAll S s vs) := by
  induction vs generalizing s with
  | nil => exact hp
  | cons v vs ih => exact ih (packed_insert hp v)

theorem insertAll_ne_none (vs : List V) (h : s i ≠ none) : insertAll S s vs i ≠ none := by
  induction vs generalizing s with
  | nil => exact h
  | cons v vs ih =>
      rw [insertAll_cons]
      apply ih
      cases hv : S.vacancy s (S.key v) with
      | none => rwa [Scheme.insert_of_full hv]
      | some p =>
          rw [Scheme.insert_of_vacancy hv]
          rcases eq_or_ne i p with hip | hip
          · simp [hip]
          · simpa only [store_other s v hip] using h

theorem insertAll_eq_self_iff (vs : List V) :
    insertAll S s vs = s ↔ ∀ v ∈ vs, S.vacancy s (S.key v) = none := by
  induction vs with
  | nil => simp [insertAll]
  | cons v vs ih =>
      rw [List.forall_mem_cons, insertAll_cons]
      cases hv : S.vacancy s (S.key v) with
      | none => rw [Scheme.insert_of_full hv, ih, eq_self_iff_true, true_and]
      | some p =>
          have hn : s p = none := (Scheme.vacancy_eq_some_iff.mp hv).2.2.1
          rw [Scheme.insert_of_vacancy hv]
          refine iff_of_false (fun heq => ?_) (by simp)
          have hne : insertAll S (s.store p v) vs p ≠ none := insertAll_ne_none vs (by simp)
          rw [heq] at hne
          exact hne hn

theorem room_insert_vacant {v : V} (hv : S.vacancy s (S.key v) = some i) (hp : p ≤ S.home (S.key v)) :
    room S s p = room S (S.insert s v).2 p + 1 := by
  obtain ⟨hle, hlt, hn, -⟩ := Scheme.vacancy_eq_some_iff.mp hv
  rw [Scheme.insert_of_vacancy hv, room_store (v := v) hlt hn, if_pos (hp.trans hle)]

theorem room_insertAll (s : Slots V) (vs : List V) :
    room S s 0 ≤ room S (insertAll S s vs) 0 + vs.length := by
  induction vs generalizing s with
  | nil => exact Nat.le_refl _
  | cons v vs ih =>
      have hrest := ih (S.insert s v).2
      rw [insertAll_cons, List.length_cons]
      cases hv : S.vacancy s (S.key v) with
      | none =>
          rw [Scheme.insert_of_full hv] at hrest ⊢
          exact Nat.le_succ_of_le hrest
      | some i =>
          rw [room_insert_vacant hv (Nat.zero_le _)]
          omega

-- A key that finds no slot leaves the room as it was.
theorem allPlaced_iff_room {vs : List V} :
    AllPlaced S s vs ↔ room S s 0 = room S (insertAll S s vs) 0 + vs.length := by
  induction vs generalizing s with
  | nil => exact iff_of_true trivial rfl
  | cons v vs ih =>
      have hrest := room_insertAll (S := S) (S.insert s v).2 vs
      rw [AllPlaced, ih, insertAll_cons, List.length_cons]
      cases hv : S.vacancy s (S.key v) with
      | none =>
          rw [Scheme.insert_of_full hv] at hrest ⊢
          simp only [ne_eq, not_true_eq_false, false_and, false_iff] at hrest ⊢
          omega
      | some i =>
          rw [room_insert_vacant hv (Nat.zero_le _)]
          simp only [Scheme.insert_of_vacancy hv, ne_eq, reduceCtorEq, not_false_eq_true, true_and]
          omega

variable [DecidableEq K] {k : K} {w : V}

theorem lookup_insert (hp : S.Packed s) (v : V) (k : K) :
    S.lookup (S.insert s v).2 k =
      (S.lookup s k).or (if S.key v = k then (S.insert s v).1.map (fun _ => v) else none) := by
  cases hv : S.vacancy s (S.key v) with
  | none => simp [Scheme.insert_of_full hv]
  | some p => simp [Scheme.insert_of_vacancy hv, Scheme.lookup_store hp hv]

theorem lookup_insertAll_of_some (hp : S.Packed s) (vs : List V) (h : S.lookup s k = some w) :
    S.lookup (insertAll S s vs) k = some w := by
  induction vs generalizing s with
  | nil => exact h
  | cons v vs ih =>
      apply ih (packed_insert hp v)
      rw [lookup_insert hp, h, Option.some_or]

theorem lookup_insertAll_of_ne (hp : S.Packed s) (vs : List V) (h : ∀ v ∈ vs, S.key v ≠ k) :
    S.lookup (insertAll S s vs) k = S.lookup s k := by
  induction vs generalizing s with
  | nil => rfl
  | cons v vs ih =>
      obtain ⟨hv, hvs⟩ := List.forall_mem_cons.mp h
      rw [insertAll_cons, ih (packed_insert hp v) hvs, lookup_insert hp, if_neg hv, Option.or_none]

theorem lookup_insertAll_of_full (hp : S.Packed s) (vs : List V) (h : S.vacancy s k = none) :
    S.lookup (insertAll S s vs) k = S.lookup s k := by
  induction vs generalizing s with
  | nil => rfl
  | cons v vs ih =>
      cases hv : S.vacancy s (S.key v) with
      | none =>
          rw [insertAll_cons, Scheme.insert_of_full hv]
          exact ih hp h
      | some p =>
          have hne : S.key v ≠ k := by
            rintro rfl
            simp [h] at hv
          rw [insertAll_cons, Scheme.insert_of_vacancy hv,
            ih (Scheme.packed_store hp hv) (Scheme.vacancy_store_none h),
            Scheme.lookup_store hp hv, if_neg hne, Option.or_none]

-- The first value of a key decides: once it has found no slot, no later one of that key does.
theorem lookup_insertAll_split (hp : S.Packed s) (before after : List V) (v : V)
    (h : ∀ w ∈ before, S.key w ≠ S.key v) (hn : S.lookup s (S.key v) = none) :
    (HasSlot S s (before.map S.key) (S.key v) →
        S.lookup (insertAll S s (before ++ v :: after)) (S.key v) = some v) ∧
      (¬HasSlot S s (before.map S.key) (S.key v) →
        S.lookup (insertAll S s (before ++ v :: after)) (S.key v) = none) := by
  have hbefore := lookup_insertAll_of_ne hp before h
  have hpacked := packed_insertAll hp before
  have hcons : insertAll S s (before ++ v :: after) =
      insertAll S (S.insert (insertAll S s before) v).2 after := insertAll_append before (v :: after)
  rw [hcons, hasSlot_iff]
  cases hv : S.vacancy (insertAll S s before) (S.key v) with
  | none =>
      rw [Scheme.insert_of_full hv, lookup_insertAll_of_full hpacked after hv, hbefore, hn]
      simp
  | some p =>
      refine ⟨fun _ => lookup_insertAll_of_some (packed_insert hpacked v) after ?_, by simp⟩
      rw [lookup_insert hpacked, hbefore, hn, Scheme.insert_of_vacancy hv]
      simp

end Parking
