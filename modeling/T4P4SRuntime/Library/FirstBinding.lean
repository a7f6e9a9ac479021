import T4P4SRuntime.Library.Probing

namespace FirstBinding

abbrev Dict (K R : Type) := K → Option R

namespace Dict

variable {K R : Type} [DecidableEq K]

def empty : Dict K R := fun _ => none

def bind (d : Dict K R) (k : K) (r : R) : Dict K R := Function.update d k ((d k).or (some r))

def bindAll (d : Dict K R) (calls : List (K × R)) : Dict K R :=
  calls.foldl (fun d c => d.bind c.1 c.2) d

theorem bind_same (d : Dict K R) (k : K) (r : R) : d.bind k r k = (d k).or (some r) := by
  simp [bind]

theorem bind_other (d : Dict K R) {k k' : K} (r : R) (h : k' ≠ k) : d.bind k r k' = d k' := by
  simp [bind, h]

theorem bindAll_apply (d : Dict K R) (calls : List (K × R)) (k : K) :
    d.bindAll calls k = (d k).or ((calls.find? (fun c => c.1 = k)).map Prod.snd) := by
  induction calls generalizing d with
  | nil => simp [bindAll]
  | cons c cs ih =>
      have hstep : d.bindAll (c :: cs) k = (d.bind c.1 c.2).bindAll cs k := rfl
      rw [hstep, ih]
      rcases eq_or_ne c.1 k with rfl | hc
      · simp [bind_same]
      · simp [bind_other d c.2 (Ne.symm hc), hc]

theorem empty_bindAll (calls : List (K × R)) (k : K) :
    (empty : Dict K R).bindAll calls k = (calls.find? (fun c => c.1 = k)).map Prod.snd := by
  simp [bindAll_apply, empty]

end Dict

theorem find?_of_nodup {A B : Type} [DecidableEq B] {f : A → B} {l : List A} {a : A}
    (hn : (l.map f).Nodup) (ha : a ∈ l) : l.find? (fun x => f x = f a) = some a := by
  induction l with
  | nil => simp at ha
  | cons x xs ih =>
      obtain ⟨hx, hxs⟩ := List.nodup_cons.mp hn
      rcases List.mem_cons.mp ha with rfl | hmem
      · simp
      · have hne : f x ≠ f a := fun h => hx (h ▸ List.mem_map_of_mem hmem)
        simpa [hne] using ih hxs hmem

open Probing

variable {K V : Type} {S : Scheme K V} {s : Slots V}

abbrev Returned (V : Type) := Option (Nat × V)

def returned (S : Scheme K V) (s : Slots V) (v : V) : Returned V := (S.insert s v).1.map (·, v)

variable [DecidableEq K]

structure Refines (S : Scheme K V) (s : Slots V) (d : Dict K (Returned V)) : Prop where
  packed : S.Packed s
  slot : ∀ k, S.slotOf s k = (d k).join.map Prod.fst
  content : ∀ k i v, d k = some (some (i, v)) → s i = some v
  dead : ∀ k, d k = some none → S.vacancy s k = none

variable {d : Dict K (Returned V)}

theorem refines_empty : Refines S Slots.empty (Dict.empty : Dict K (Returned V)) where
  packed := Scheme.packed_empty
  slot := fun k => by simp [Scheme.slotOf_empty, Dict.empty]
  content := fun k i v h => by simp [Dict.empty] at h
  dead := fun k h => by simp [Dict.empty] at h

theorem Refines.bind_full (h : Refines S s d) {v : V} (hf : S.vacancy s (S.key v) = none) :
    Refines S s (d.bind (S.key v) none) where
  packed := h.packed
  slot := fun k => by
    rcases eq_or_ne k (S.key v) with rfl | hk
    · rw [Dict.bind_same, h.slot]
      cases d (S.key v) <;> simp
    · rw [Dict.bind_other d none hk, h.slot]
  content := fun k i w hd => by
    rcases eq_or_ne k (S.key v) with rfl | hk
    · rw [Dict.bind_same] at hd
      cases hdk : d (S.key v) with
      | none => simp [hdk] at hd
      | some r => exact h.content (S.key v) i w (by simpa [hdk] using hd)
    · exact h.content k i w (by rwa [Dict.bind_other d none hk] at hd)
  dead := fun k hd => by
    rcases eq_or_ne k (S.key v) with hk | hk
    · rw [hk]
      exact hf
    · exact h.dead k (by rwa [Dict.bind_other d none hk] at hd)

theorem Refines.bind_store (h : Refines S s d) {v : V} {i : Nat}
    (hv : S.vacancy s (S.key v) = some i) :
    Refines S (s.store i v) (d.bind (S.key v) (some (i, v))) where
  packed := Scheme.packed_store h.packed hv
  slot := fun k => by
    have hn : s i = none := (Scheme.vacancy_eq_some_iff.mp hv).2.2.1
    rcases eq_or_ne k (S.key v) with rfl | hk
    · rw [Dict.bind_same]
      cases hdk : d (S.key v) with
      | none =>
          have hs : S.slotOf s (S.key v) = none := by simp [h.slot, hdk]
          simp [Scheme.slotOf_store_fresh h.packed hv hs]
      | some r =>
          cases r with
          | none => simp [h.dead _ hdk] at hv
          | some p =>
              have hs : S.slotOf s (S.key v) = some p.1 := by simp [h.slot, hdk]
              simp [Scheme.slotOf_store_of_some hn hs]
    · rw [Dict.bind_other d _ hk, ← h.slot]
      exact Scheme.slotOf_store_ne h.packed hv (Ne.symm hk)
  content := fun k j w hd => by
    have hn : s i = none := (Scheme.vacancy_eq_some_iff.mp hv).2.2.1
    have hold : d k = some (some (j, w)) → s.store i v j = some w := fun hd => by
      have hj := h.content k j w hd
      rw [store_other s v (fun hji => by simp [← hji, hj] at hn), hj]
    rcases eq_or_ne k (S.key v) with rfl | hk
    · rw [Dict.bind_same] at hd
      cases hdk : d (S.key v) with
      | none =>
          simp only [hdk, Option.none_or, Option.some.injEq, Prod.mk.injEq] at hd
          rw [← hd.1, ← hd.2, store_same]
      | some r => exact hold (by simpa [hdk] using hd)
    · exact hold (by rwa [Dict.bind_other d _ hk] at hd)
  dead := fun k hd => by
    rcases eq_or_ne k (S.key v) with rfl | hk
    · rw [Dict.bind_same] at hd
      cases hdk : d (S.key v) with
      | none => simp [hdk] at hd
      | some r => exact Scheme.vacancy_store_none (h.dead (S.key v) (by simpa [hdk] using hd))
    · exact Scheme.vacancy_store_none (h.dead k (by rwa [Dict.bind_other d _ hk] at hd))

theorem Refines.insert (h : Refines S s d) (v : V) :
    Refines S (S.insert s v).2 (d.bind (S.key v) (returned S s v)) := by
  cases hv : S.vacancy s (S.key v) with
  | none =>
      rw [returned, Scheme.insert_of_full hv]
      exact h.bind_full hv
  | some i =>
      rw [returned, Scheme.insert_of_vacancy hv]
      exact h.bind_store hv

end FirstBinding
