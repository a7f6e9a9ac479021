import Mathlib.Tactic

namespace Scan

inductive Step (B : Type) where
  | next
  | stop
  | found (b : B)

def scan {B : Type} (body : Nat → Step B) : Nat → Nat → Option B
  | 0, _ => none
  | n + 1, i =>
      match body i with
      | .next => scan body n (i + 1)
      | .stop => none
      | .found b => some b

variable {B : Type} {body body' : Nat → Step B}

theorem scan_next {n i : Nat} (h : body i = .next) :
    scan body (n + 1) i = scan body n (i + 1) := by
  simp [scan, h]

theorem scan_eq_some_iff {n i : Nat} {b : B} :
    scan body n i = some b ↔
      ∃ j, i ≤ j ∧ j < i + n ∧ body j = .found b ∧ ∀ l, i ≤ l → l < j → body l = .next := by
  induction n generalizing i with
  | zero =>
      simp only [scan, reduceCtorEq, false_iff]
      rintro ⟨j, hij, hj, -⟩
      omega
  | succ n ih =>
      constructor
      · intro h
        simp only [scan] at h
        cases hi : body i with
        | next =>
            rw [hi] at h
            obtain ⟨j, hij, hj, hb, hall⟩ := ih.mp h
            refine ⟨j, by omega, by omega, hb, fun l hl hlj => ?_⟩
            rcases Nat.eq_or_lt_of_le hl with rfl | hlt
            · exact hi
            · exact hall l hlt hlj
        | stop => simp [hi] at h
        | found c =>
            simp only [hi, Option.some.injEq] at h
            exact ⟨i, Nat.le_refl i, by omega, h ▸ hi, fun l hl hli => by omega⟩
      · rintro ⟨j, hij, hj, hb, hall⟩
        rcases Nat.eq_or_lt_of_le hij with rfl | hlt
        · simp [scan, hb]
        · rw [scan_next (hall i (Nat.le_refl i) hlt)]
          exact ih.mpr ⟨j, hlt, by omega, hb, fun l hl hlj => hall l (by omega) hlj⟩

theorem scan_eq_none_iff {n i : Nat} :
    scan body n i = none ↔
      (∀ l, i ≤ l → l < i + n → body l = .next) ∨
      ∃ j, i ≤ j ∧ j < i + n ∧ body j = .stop ∧ ∀ l, i ≤ l → l < j → body l = .next := by
  induction n generalizing i with
  | zero =>
      simp only [scan, true_iff]
      exact Or.inl fun l hl hli => by omega
  | succ n ih =>
      cases hi : body i with
      | next =>
          rw [scan_next hi, ih]
          constructor
          · rintro (hall | ⟨j, hij, hj, hs, hall⟩)
            · apply Or.inl
              intro l hl hln
              rcases Nat.eq_or_lt_of_le hl with rfl | hlt
              · exact hi
              · exact hall l hlt (by omega)
            · refine Or.inr ⟨j, by omega, by omega, hs, fun l hl hlj => ?_⟩
              rcases Nat.eq_or_lt_of_le hl with rfl | hlt
              · exact hi
              · exact hall l hlt hlj
          · rintro (hall | ⟨j, hij, hj, hs, hall⟩)
            · exact Or.inl fun l hl hln => hall l (by omega) (by omega)
            · have hne : i ≠ j := fun h => by simp [← h, hi] at hs
              exact Or.inr ⟨j, by omega, by omega, hs, fun l hl hlj => hall l (by omega) hlj⟩
      | stop =>
          simp only [scan, hi, true_iff]
          exact Or.inr ⟨i, Nat.le_refl i, by omega, hi, fun l hl hli => by omega⟩
      | found b =>
          simp only [scan, hi, reduceCtorEq, false_iff]
          rintro (hall | ⟨j, hij, hj, hs, hall⟩)
          · simpa [hi] using hall i (Nat.le_refl i) (by omega)
          · rcases Nat.eq_or_lt_of_le hij with rfl | hlt
            · simp [hi] at hs
            · simpa [hi] using hall i (Nat.le_refl i) hlt

theorem scan_congr {n i : Nat} (h : ∀ l, body l = body' l) : scan body n i = scan body' n i := by
  have he : body = body' := funext h
  rw [he]

end Scan
