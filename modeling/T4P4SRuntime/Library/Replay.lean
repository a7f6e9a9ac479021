import Mathlib.Tactic

namespace Replay

variable {S M N V : Type} {start : S} {step step' : S → M → S → Prop} {moments : List M} {s : S}

-- What has happened, the latest moment first, and the state it led to.
inductive Runs (start : S) (step : S → M → S → Prop) : List M → S → Prop where
  | start : Runs start step [] start
  | step {moments : List M} {s s' : S} {m : M} : Runs start step moments s → step s m s' →
      Runs start step (m :: moments) s'

def view (first : V) (observe : V → M → V) (moments : List M) : V :=
  moments.foldr (fun m v => observe v m) first

theorem view_cons (first : V) (observe : V → M → V) (m : M) (moments : List M) :
    view first observe (m :: moments) = observe (view first observe moments) m := rfl

theorem Runs.invariant {P : S → Prop} (hstart : P start)
    (hstep : ∀ s m s', P s → step s m s' → P s') (h : Runs start step moments s) : P s := by
  induction h with
  | start => exact hstart
  | step _ hs ih => exact hstep _ _ _ ih hs

theorem Runs.mono (hsub : ∀ s m s', step s m s' → step' s m s') (h : Runs start step moments s) :
    Runs start step' moments s := by
  induction h with
  | start => exact .start
  | step _ hs ih => exact .step ih (hsub _ _ _ hs)

theorem Runs.map {next : S → N → S → Prop} (f : M → N)
    (hsub : ∀ s m s', step s m s' → next s (f m) s') (h : Runs start step moments s) :
    Runs start next (moments.map f) s := by
  induction h with
  | start => exact .start
  | step _ hs ih => exact .step ih (hsub _ _ _ hs)

theorem Runs.tracks {T : V → S → Prop} {first : V} {observe : V → M → V} (hstart : T first start)
    (hstep : ∀ v s m s', T v s → step s m s' → T (observe v m) s')
    (h : Runs start step moments s) : T (view first observe moments) s := by
  induction h with
  | start => exact hstart
  | step _ hs ih =>
      rw [view_cons]
      exact hstep _ _ _ _ ih hs

theorem Runs.project {S' : Type} {start' : S'} {after : S' → M → S' → Prop} {R : S → S' → Prop}
    (keep : M → Bool) (hstart : R start start')
    (hkept : ∀ s m s' t, R s t → step s m s' → keep m = true → ∃ t', after t m t' ∧ R s' t')
    (hskipped : ∀ s m s' t, R s t → step s m s' → keep m = false → R s' t)
    (h : Runs start step moments s) : ∃ t, Runs start' after (moments.filter keep) t ∧ R s t := by
  induction h with
  | start => exact ⟨start', .start, hstart⟩
  | @step moments s s' m _ hs ih =>
      obtain ⟨t, ht, hr⟩ := ih
      cases hk : keep m with
      | true =>
          obtain ⟨t', hafter, hr'⟩ := hkept s m s' t hr hs hk
          rw [List.filter_cons_of_pos hk]
          exact ⟨t', .step ht hafter, hr'⟩
      | false =>
          rw [List.filter_cons_of_neg (by simp [hk])]
          exact ⟨t, ht, hskipped s m s' t hr hs hk⟩

theorem Runs.skip (keep : M → Bool)
    (hskipped : ∀ s m s', step s m s' → keep m = false → s' = s) (h : Runs start step moments s) :
    Runs start step (moments.filter keep) s := by
  obtain ⟨t, ht, rfl⟩ := h.project (R := Eq) keep rfl
    (by
      rintro s m s' _ rfl hs -
      exact ⟨s', hs, rfl⟩)
    (by
      rintro s m s' _ rfl hs hk
      exact hskipped s m s' hs hk)
  exact ht

theorem Runs.cases_append {later earlier : List M} (h : Runs start step (later ++ earlier) s) :
    ∃ s₀, Runs start step earlier s₀ ∧ Runs s₀ step later s := by
  induction later generalizing s with
  | nil => exact ⟨s, h, .start⟩
  | cons m later ih =>
      cases h with
      | step hrun hs =>
          obtain ⟨s₀, he, hl⟩ := ih hrun
          exact ⟨s₀, he, .step hl hs⟩

end Replay
