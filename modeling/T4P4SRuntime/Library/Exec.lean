import Mathlib.Tactic

structure Exec (E F A : Type) where
  log : List E
  out : Except F A
  deriving DecidableEq

namespace Exec

variable {E F A B : Type}

def ret (a : A) : Exec E F A := ⟨[], .ok a⟩

def fault (f : F) : Exec E F A := ⟨[], .error f⟩

def emit (e : E) : Exec E F Unit := ⟨[e], .ok ()⟩

-- A fault ends the computation and keeps what was already logged.
def andThen (x : Exec E F A) (g : A → Exec E F B) : Exec E F B :=
  match x.out with
  | .error f => ⟨x.log, .error f⟩
  | .ok a => ⟨x.log ++ (g a).log, (g a).out⟩

instance : Monad (Exec E F) where
  pure := ret
  bind := andThen

instance : LawfulMonad (Exec E F) := LawfulMonad.mk' (Exec E F)
  (by
    rintro A ⟨l, f | a⟩ <;> simp [Functor.map, andThen, ret])
  (by
    intro A B a g
    simp [Bind.bind, Pure.pure, andThen, ret])
  (by
    rintro A B C ⟨l, f | a⟩ g h
    · simp [Bind.bind, andThen]
    · cases hg : g a with
      | mk lg og => cases og <;> simp [Bind.bind, andThen, hg])

def deref (f : F) : Option A → Exec E F A
  | none => fault f
  | some a => pure a

theorem pure_def (a : A) : (pure a : Exec E F A) = ⟨[], .ok a⟩ := rfl

@[simp] theorem deref_some (f : F) (a : A) : (deref f (some a) : Exec E F A) = pure a := rfl

@[simp] theorem deref_none (f : F) : (deref f none : Exec E F A) = fault f := rfl

@[simp] theorem fault_bind (f : F) (g : A → Exec E F B) :
    (fault f : Exec E F A) >>= g = fault f := rfl

@[simp] theorem map_fault (f : F) (g : A → B) : g <$> (fault f : Exec E F A) = fault f := rfl

theorem deref_bind (f : F) (o : Option A) (g : A → Option B) :
    (deref f o : Exec E F A) >>= (fun a => deref f (g a)) = deref f (o.bind g) := by
  cases o <;> simp

theorem pure_eq_ok_iff {a b : A} {l : List E} :
    (pure a : Exec E F A) = ⟨l, .ok b⟩ ↔ [] = l ∧ a = b := by
  rw [pure_def, mk.injEq, Except.ok.injEq]

theorem mk_bind (l : List E) (a : A) (g : A → Exec E F B) :
    (⟨l, .ok a⟩ : Exec E F A) >>= g = ⟨l ++ (g a).log, (g a).out⟩ := rfl

theorem map_error (l : List E) (f : F) (g : A → B) :
    g <$> (⟨l, .error f⟩ : Exec E F A) = ⟨l, .error f⟩ := rfl

theorem map_ok (l : List E) (a : A) (g : A → B) :
    g <$> (⟨l, .ok a⟩ : Exec E F A) = ⟨l, .ok (g a)⟩ := by
  rw [map_eq_pure_bind, mk_bind]
  simp [pure_def]

theorem bind_log_nil {x : Exec E F A} {g : A → Exec E F B} (hx : x.log = [])
    (hg : ∀ a, (g a).log = []) : (x >>= g).log = [] := by
  obtain ⟨lx, f | a⟩ := x
  · exact hx
  · rw [mk_bind]
    simpa [hg] using hx

theorem bind_log_forall {P : E → Prop} {x : Exec E F A} {g : A → Exec E F B}
    (hx : ∀ e ∈ x.log, P e) (hg : ∀ a, ∀ e ∈ (g a).log, P e) : ∀ e ∈ (x >>= g).log, P e := by
  obtain ⟨lx, f | a⟩ := x
  · exact hx
  · intro e he
    rw [mk_bind] at he
    rcases List.mem_append.mp he with h | h
    · exact hx e h
    · exact hg a e h

theorem bind_eq_ok_iff {x : Exec E F A} {g : A → Exec E F B} {l : List E} {b : B} :
    x >>= g = ⟨l, .ok b⟩ ↔
      ∃ l₁ a l₂, x = ⟨l₁, .ok a⟩ ∧ g a = ⟨l₂, .ok b⟩ ∧ l = l₁ ++ l₂ := by
  obtain ⟨lx, f | a⟩ := x
  · simp [Bind.bind, andThen]
  · rw [mk_bind]
    constructor
    · intro h
      simp only [mk.injEq] at h
      exact ⟨lx, a, (g a).log, rfl, by rw [← h.2], h.1.symm⟩
    · rintro ⟨l₁, a', l₂, hx, hg, rfl⟩
      simp only [mk.injEq, Except.ok.injEq] at hx
      obtain ⟨rfl, rfl⟩ := hx
      simp [hg]

variable {E' F' : Type}

def hoist (e : E → E') (f : F → F') (x : Exec E F A) : Exec E' F' A :=
  ⟨x.log.map e, x.out.mapError f⟩

theorem hoist_ok (e : E → E') (f : F → F') (l : List E) (a : A) :
    hoist e f (⟨l, .ok a⟩ : Exec E F A) = ⟨l.map e, .ok a⟩ := rfl

theorem hoist_pure (e : E → E') (f : F → F') (a : A) :
    hoist e f (pure a : Exec E F A) = pure a := rfl

theorem hoist_fault (e : E → E') (f : F → F') (g : F) :
    hoist e f (fault g : Exec E F A) = fault (f g) := rfl

theorem hoist_deref (e : E → E') (f : F → F') (g : F) (o : Option A) :
    hoist e f (deref g o : Exec E F A) = deref (f g) o := by
  cases o <;> rfl

theorem hoist_bind (e : E → E') (f : F → F') (x : Exec E F A) (g : A → Exec E F B) :
    hoist e f (x >>= g) = hoist e f x >>= fun a => hoist e f (g a) := by
  obtain ⟨l, h | a⟩ := x
  · rfl
  · rw [mk_bind, hoist_ok, mk_bind, hoist, List.map_append]
    rfl

theorem hoist_eq_ok_iff {e : E → E'} {f : F → F'} {x : Exec E F A} {l : List E'} {a : A} :
    hoist e f x = ⟨l, .ok a⟩ ↔ ∃ l₁, x = ⟨l₁, .ok a⟩ ∧ l = l₁.map e := by
  obtain ⟨lx, g | b⟩ := x
  · simp [hoist, Except.mapError]
  · rw [hoist_ok]
    constructor
    · intro h
      simp only [mk.injEq, Except.ok.injEq] at h
      exact ⟨lx, by rw [h.2], h.1.symm⟩
    · rintro ⟨l₁, hx, rfl⟩
      simp only [mk.injEq, Except.ok.injEq] at hx
      rw [hx.1, hx.2]

-- Both end with related results, or both in related faults.
inductive Simulates {E F F' A B : Type} (R : A → B → Prop) (Q : F' → F → Prop) :
    Except F' A → Exec E F B → Prop where
  | ok {a : A} {b : B} {log : List E} : R a b → Simulates R Q (.ok a) ⟨log, .ok b⟩
  | fault {f' : F'} {f : F} {log : List E} : Q f' f → Simulates R Q (.error f') ⟨log, .error f⟩

theorem simulates_pure {R : A → B → Prop} {Q : F' → F → Prop} {a : A} {b : B} (h : R a b) :
    Simulates (E := E) R Q (pure a) (pure b) := .ok h

theorem Simulates.bind {A' B' : Type} {R : A → B → Prop} {R' : A' → B' → Prop} {Q : F' → F → Prop}
    {x : Except F' A} {y : Exec E F B} {g : A → Except F' A'} {k : B → Exec E F B'}
    (h : Simulates R Q x y) (hk : ∀ a b, R a b → Simulates R' Q (g a) (k b)) :
    Simulates R' Q (x >>= g) (y >>= k) := by
  cases h with
  | @ok a b log hab =>
      have hnext := hk a b hab
      have hg : (Except.ok a >>= g) = g a := rfl
      rw [hg, mk_bind]
      generalize g a = started at hnext ⊢
      generalize k b = running at hnext ⊢
      cases hnext with
      | ok hr => exact .ok hr
      | fault hf => exact .fault hf
  | fault hf => exact .fault hf

end Exec
