import Mathlib.Tactic

namespace Memory

inductive Fault where
  | access
  | free
  deriving DecidableEq, Repr

-- `next` was never handed out, and nothing is handed out twice: whoever uses a freed block faults.
structure Heap (V : Type) where
  block : Nat → Option V
  next : Nat
  fresh : ∀ p, next ≤ p → block p = none

namespace Heap

variable {V I : Type}

def empty : Heap V := { block := fun _ => none, next := 0, fresh := fun _ _ => rfl }

def malloc (h : Heap V) (v : V) : Heap V where
  block p := if p = h.next then some v else h.block p
  next := h.next + 1
  fresh p hp := by
    rw [if_neg (by omega)]
    exact h.fresh p (by omega)

def replace (h : Heap V) (p : Nat) (v : Option V) : Heap V where
  block a := if a = p ∧ p < h.next then v else h.block a
  next := h.next
  fresh a ha := by
    rw [if_neg (by omega)]
    exact h.fresh a ha

def load (h : Heap V) (p : Nat) : Except Fault V :=
  match h.block p with
  | none => .error .access
  | some v => .ok v

def store (h : Heap V) (p : Nat) (v : V) : Except Fault (Heap V) :=
  match h.block p with
  | none => .error .access
  | some _ => .ok (h.replace p (some v))

def free (h : Heap V) (p : Nat) : Except Fault (Heap V) :=
  match h.block p with
  | none => .error .free
  | some _ => .ok (h.replace p none)

variable {h : Heap V} {p a : Nat} {v w : V}

theorem lt_next (hp : h.block p = some v) : p < h.next := by
  by_contra hge
  rw [h.fresh p (by omega)] at hp
  cases hp

theorem next_ne (hp : h.block p = some v) : p ≠ h.next := (lt_next hp).ne

theorem malloc_next (h : Heap V) (v : V) : (h.malloc v).block h.next = some v := if_pos rfl

theorem malloc_block (v : V) (ha : a ≠ h.next) : (h.malloc v).block a = h.block a := if_neg ha

theorem malloc_live (w : V) (hp : h.block p = some v) : (h.malloc w).block p = some v := by
  rw [malloc_block w (next_ne hp), hp]

theorem replace_same (o : Option V) (hp : h.block p = some v) : (h.replace p o).block p = o :=
  if_pos ⟨rfl, lt_next hp⟩

theorem replace_block (o : Option V) (ha : a ≠ p) : (h.replace p o).block a = h.block a :=
  if_neg fun hc => ha hc.1

theorem load_live (hp : h.block p = some v) : h.load p = .ok v := by rw [load, hp]

theorem load_dead (hp : h.block p = none) : h.load p = .error .access := by rw [load, hp]

theorem store_live (w : V) (hp : h.block p = some v) :
    h.store p w = .ok (h.replace p (some w)) := by rw [store, hp]

theorem free_live (hp : h.block p = some v) : h.free p = .ok (h.replace p none) := by rw [free, hp]

theorem free_dead (hp : h.block p = none) : h.free p = .error .free := by rw [free, hp]

-- Every live block has one owner, and an owner holds live blocks only.
structure Owned (h : Heap V) (owns : I → Nat → Prop) : Prop where
  live : ∀ p, h.block p ≠ none ↔ ∃ i, owns i p
  apart : ∀ i j p, owns i p → owns j p → i = j

variable {owns owns' : I → Nat → Prop} {i : I}

theorem Owned.congr (ho : Owned h owns) (he : ∀ i p, owns i p ↔ owns' i p) : Owned h owns' := by
  have hsame : owns = owns' := funext fun i => funext fun p => propext (he i p)
  exact hsame ▸ ho

theorem Owned.malloc (ho : Owned h owns) (v : V) (i : I) :
    Owned (h.malloc v) (fun j p => owns j p ∨ (j = i ∧ p = h.next)) where
  live p := by
    rcases eq_or_ne p h.next with rfl | hp
    · rw [malloc_next]
      exact iff_of_true (Option.some_ne_none v) ⟨i, Or.inr ⟨rfl, rfl⟩⟩
    · rw [malloc_block v hp, ho.live]
      simp [hp]
  apart j k p hj hk := by
    have hnone : ∀ l, ¬owns l h.next := fun l hl =>
      (ho.live h.next).mpr ⟨l, hl⟩ (h.fresh h.next (Nat.le_refl _))
    rcases hj with hj | ⟨rfl, rfl⟩
    · rcases hk with hk | ⟨rfl, rfl⟩
      · exact ho.apart j k p hj hk
      · exact absurd hj (hnone j)
    · rcases hk with hk | ⟨rfl, -⟩
      · exact absurd hk (hnone k)
      · rfl

theorem Owned.store (ho : Owned h owns) (w : V) (hp : h.block p = some v) :
    Owned (h.replace p (some w)) owns where
  live a := by
    rw [← ho.live]
    rcases eq_or_ne a p with rfl | ha
    · rw [replace_same _ hp, hp]
      simp
    · rw [replace_block _ ha]
  apart := ho.apart

theorem Owned.free (ho : Owned h owns) (hp : h.block p = some v) :
    Owned (h.replace p none) (fun i a => owns i a ∧ a ≠ p) where
  live a := by
    rcases eq_or_ne a p with rfl | ha
    · rw [replace_same _ hp]
      simp
    · rw [replace_block _ ha, ho.live]
      simp [ha]
  apart i j a hi hj := ho.apart i j a hi.1 hj.1

end Heap

end Memory
