import T4P4SRuntime.IdMap.Map
import T4P4SRuntime.Library.Heap

namespace IdMap

open Memory Memory.Heap Probing Scan

-- A field that `malloc` handed out and nothing was stored in yet is `none`.
structure ElementBlock where
  value : Option Nat
  key : Option UInt64
  args : Option (List Argument)
  deriving DecidableEq

inductive Block where
  | element (e : ElementBlock)
  | chars (size : Nat) (contents : Option CString)
  deriving DecidableEq

inductive MapFault where
  | memory (fault : Memory.Fault)
  | uninitialized
  | wrongBlock
  | stringOverflow
  | nullElement
  | argsOverflow
  | nameOverflow
  deriving DecidableEq, Repr

structure HeapMap where
  heap : Heap Block
  data : Slots Nat

abbrev Checked (A : Type) := Except MapFault A

def checked {A : Type} (x : Except Memory.Fault A) : Checked A := x.mapError .memory

def initialized {A : Type} : Option A → Checked A
  | none => throw .uninitialized
  | some a => pure a

def loadElement (heap : Heap Block) (p : Nat) : Checked ElementBlock := do
  match ← checked (heap.load p) with
  | .element e => pure e
  | .chars _ _ => throw .wrongBlock

def storeElement (heap : Heap Block) (p : Nat) (f : ElementBlock → ElementBlock) :
    Checked (Heap Block) := do
  let e ← loadElement heap p
  checked (heap.store p (.element (f e)))

def strcpy (heap : Heap Block) (p : Nat) (value : CString) : Checked (Heap Block) := do
  match ← checked (heap.load p) with
  | .element _ => throw .wrongBlock
  | .chars size _ =>
      if strlen value + 1 ≤ size then checked (heap.store p (.chars size (some value)))
      else throw .stringOverflow

def HeapMap.getElementLoop (m : HeapMap) (key : UInt64) : Nat → Nat → Checked (Option Nat)
  | 0, _ => pure none
  | n + 1, i =>
      match m.data i with
      | none => pure none
      | some p => do
          let e ← loadElement m.heap p
          let k ← initialized e.key
          if k = key then pure (some p) else m.getElementLoop key n (i + 1)

def HeapMap.getElement (m : HeapMap) (key : UInt64) : Checked (Option Nat) :=
  m.getElementLoop key (maxMapSize - index key) (index key)

def blankElement : ElementBlock := { value := none, key := none, args := none }

def HeapMap.fill (m : HeapMap) (i : Nat) (key : UInt64) (value : CString) :
    Checked (Option Nat × HeapMap) := do
  let p := m.heap.next
  let heap := m.heap.malloc (.element blankElement)
  let heap ← storeElement heap p (fun e => { e with key := some key })
  let newValue := heap.next
  let heap := heap.malloc (.chars (strlen value + 1) none)
  let heap ← strcpy heap newValue value
  let heap ← storeElement heap p (fun e => { e with value := some newValue })
  let heap ← storeElement heap p (fun e => { e with args := some [] })
  pure (some p, { heap := heap, data := m.data.store i p })

def HeapMap.addElementLoop (m : HeapMap) (key : UInt64) (value : CString) :
    Nat → Nat → Checked (Option Nat × HeapMap)
  | 0, _ => pure (none, m)
  | n + 1, i =>
      match m.data i with
      | none => m.fill i key value
      | some _ => m.addElementLoop key value n (i + 1)

def HeapMap.addElement (m : HeapMap) (key : UInt64) (value : CString) :
    Checked (Option Nat × HeapMap) :=
  m.addElementLoop key value (maxMapSize - index key) (index key)

def HeapMap.init (heap : Heap Block) : HeapMap := { heap := heap, data := Slots.empty }

def destroyLoop (data : Slots Nat) : Nat → Nat → Heap Block → Checked (Heap Block)
  | 0, _, heap => pure heap
  | n + 1, i, heap =>
      match data i with
      | none => destroyLoop data n (i + 1) heap
      | some p => do
          let e ← loadElement heap p
          let value ← initialized e.value
          let heap ← checked (heap.free value)
          let heap ← checked (heap.free p)
          destroyLoop data n (i + 1) heap

-- The slots keep their pointers.
def HeapMap.destroy (m : HeapMap) : Checked HeapMap := do
  let heap ← destroyLoop m.data maxMapSize 0 m.heap
  pure { m with heap := heap }

def readElement (heap : Heap Block) (p : Nat) : Checked (CString × UInt64 × List Argument) := do
  let e ← loadElement heap p
  let key ← initialized e.key
  let args ← initialized e.args
  let value ← initialized e.value
  match ← checked (heap.load value) with
  | .element _ => throw .wrongBlock
  | .chars _ contents => do
      let contents ← initialized contents
      pure (contents, key, args)

def Element.contents (e : Element) : CString × UInt64 × List Argument := (e.value, e.key, e.args)

def HeapMap.lookup (m : HeapMap) (key : UInt64) :
    Checked (Option (CString × UInt64 × List Argument)) := do
  match ← m.getElement key with
  | none => pure none
  | some p => do
      let contents ← readElement m.heap p
      pure (some contents)

def blockOf (value : Nat) (e : Element) : Block :=
  .element { value := some value, key := some e.key, args := some e.args }

def charsOf (value : CString) : Block := .chars (strlen value + 1) (some value)

structure HoldsElement (heap : Heap Block) (p q : Nat) (e : Element) : Prop where
  element : heap.block p = some (blockOf q e)
  value : heap.block q = some (charsOf e.value)

inductive CellHolds (heap : Heap Block) : Option (Nat × Nat) → Option Element → Prop where
  | empty : CellHolds heap none none
  | held {p q : Nat} {e : Element} : HoldsElement heap p q e → CellHolds heap (some (p, q)) (some e)

-- The two blocks behind each slot: the element and its string.
abbrev Cells := Nat → Option (Nat × Nat)

def Cells.owns (cells : Cells) (i a : Nat) : Prop := ∃ p q, cells i = some (p, q) ∧ (a = p ∨ a = q)

structure Represents (m : HeapMap) (cells : Cells) (map : Map) : Prop where
  pointer : ∀ i, m.data i = (cells i).map Prod.fst
  content : ∀ i, CellHolds m.heap (cells i) (map.data i)
  owned : m.heap.Owned cells.owns
  inside : ∀ i, maxMapSize ≤ i → cells i = none

variable {m : HeapMap} {cells : Cells} {map : Map} {heap : Heap Block} {p q i : Nat} {e : Element}
  {eb : ElementBlock} {key : UInt64} {value : CString}

theorem represents_init (h : ∀ a, heap.block a = none) :
    Represents (HeapMap.init heap) (fun _ => none) initMap where
  pointer _ := rfl
  content _ := .empty
  owned :=
    { live := fun a => by simp [HeapMap.init, h a, Cells.owns]
      apart := fun _ _ _ ⟨_, _, hc, _⟩ => by cases hc }
  inside _ _ := rfl

theorem loadElement_live (hp : heap.block p = some (.element eb)) : loadElement heap p = .ok eb := by
  rw [loadElement, load_live hp]
  rfl

theorem loadElement_dead (hp : heap.block p = none) :
    loadElement heap p = .error (.memory .access) := by
  rw [loadElement, load_dead hp]
  rfl

theorem storeElement_live (f : ElementBlock → ElementBlock)
    (hp : heap.block p = some (.element eb)) :
    storeElement heap p f = .ok (heap.replace p (some (.element (f eb)))) := by
  rw [storeElement, loadElement_live hp]
  exact congrArg checked (store_live _ hp)

theorem strcpy_live {contents : Option CString}
    (hp : heap.block p = some (.chars (strlen value + 1) contents)) :
    strcpy heap p value = .ok (heap.replace p (some (charsOf value))) := by
  have hstore := store_live (charsOf value) hp
  have hchars : strcpy heap p value =
      if strlen value + 1 ≤ strlen value + 1 then checked (heap.store p (charsOf value))
      else throw .stringOverflow := by
    rw [strcpy, load_live hp]
    rfl
  rw [hchars, if_pos (Nat.le_refl _), hstore]
  rfl

theorem HoldsElement.load (h : HoldsElement heap p q e) :
    loadElement heap p = .ok { value := some q, key := some e.key, args := some e.args } :=
  loadElement_live h.element

theorem HoldsElement.ne (h : HoldsElement heap p q e) : p ≠ q := by
  rintro rfl
  have hsame := h.element.symm.trans h.value
  cases hsame

theorem HoldsElement.read (h : HoldsElement heap p q e) : readElement heap p = .ok (e.value, e.key, e.args) := by
  rw [readElement, h.load]
  have hvalue := load_live h.value
  simp only [bind, Except.bind, initialized, pure, Except.pure, checked, hvalue, Except.mapError,
    charsOf]

theorem HoldsElement.congr {heap' : Heap Block} (h : HoldsElement heap p q e)
    (hp : heap'.block p = heap.block p) (hq : heap'.block q = heap.block q) :
    HoldsElement heap' p q e := ⟨hp.trans h.element, hq.trans h.value⟩

theorem Represents.get_loop_eq (h : Represents m cells map) (key : UInt64) (n i : Nat) :
    m.getElementLoop key n i =
      .ok ((scan (fun i =>
        match map.data i with
        | none => .stop
        | some e => if e.key = key then .found i else .next) n i).bind
          (fun j => (cells j).map Prod.fst)) := by
  induction n generalizing i with
  | zero => rfl
  | succ n ih =>
      have hpointer := h.pointer i
      have hcontent := h.content i
      generalize hc : cells i = cell at hpointer hcontent
      generalize hd : map.data i = slot at hcontent
      cases hcontent with
      | empty =>
          rw [HeapMap.getElementLoop, hpointer]
          simp only [Option.map_none, scan, hd]
          rfl
      | @held p q e hholds =>
          have hload := hholds.load
          rw [HeapMap.getElementLoop, hpointer]
          simp only [Option.map_some, hload, bind, Except.bind, initialized, pure, Except.pure]
          rcases eq_or_ne e.key key with hkey | hkey
          · simp [scan, hd, hc, hkey]
          · rw [if_neg hkey, ih]
            simp [scan, hd, hkey]

theorem Represents.get_eq (h : Represents m cells map) (key : UInt64) :
    m.getElement key =
      .ok ((getElementSlot map key).bind (fun i => (cells i).map Prod.fst)) :=
  h.get_loop_eq key _ _

theorem Represents.add_loop_eq (h : Represents m cells map) (key : UInt64) (value : CString)
    (n i : Nat) :
    m.addElementLoop key value n i =
      match scan (fun i =>
        match map.data i with
        | none => .found i
        | some _ => .next) n i with
      | none => .ok (none, m)
      | some j => m.fill j key value := by
  induction n generalizing i with
  | zero => rfl
  | succ n ih =>
      have hpointer := h.pointer i
      have hcontent := h.content i
      generalize hc : cells i = cell at hpointer hcontent
      generalize hd : map.data i = slot at hcontent
      cases hcontent with
      | empty =>
          rw [HeapMap.addElementLoop, hpointer]
          simp [scan, hd]
      | held =>
          rw [HeapMap.addElementLoop, hpointer]
          simp only [Option.map_some, ih, scan, hd]

theorem Represents.add_eq (h : Represents m cells map) (key : UInt64) (value : CString) :
    m.addElement key value =
      match vacantSlot map key with
      | none => .ok (none, m)
      | some i => m.fill i key value :=
  h.add_loop_eq key value _ _

structure Filled (heap heap' : Heap Block) (cells : Cells) (i : Nat) (e : Element) : Prop where
  holds : HoldsElement heap' heap.next (heap.next + 1) e
  frame : ∀ a, a ≠ heap.next → a ≠ heap.next + 1 → heap'.block a = heap.block a
  owned : heap'.Owned (fun j a =>
    (cells.owns j a ∨ (j = i ∧ a = heap.next)) ∨ (j = i ∧ a = heap.next + 1))

theorem fill_of_steps {h₁ h₂ h₃ h₄ : Heap Block}
    (s₁ : storeElement (m.heap.malloc (.element blankElement)) m.heap.next
      (fun e => { e with key := some key }) = .ok h₁)
    (s₂ : strcpy (h₁.malloc (.chars (strlen value + 1) none)) h₁.next value = .ok h₂)
    (s₃ : storeElement h₂ m.heap.next (fun e => { e with value := some h₁.next }) = .ok h₃)
    (s₄ : storeElement h₃ m.heap.next (fun e => { e with args := some [] }) = .ok h₄) :
    m.fill i key value =
      .ok (some m.heap.next, { heap := h₄, data := m.data.store i m.heap.next }) := by
  rw [HeapMap.fill]
  simp only [bind, Except.bind, s₁, s₂, s₃, s₄]
  rfl

theorem fill_ok (ho : m.heap.Owned cells.owns) (i : Nat) (key : UInt64) (value : CString) :
    ∃ heap', m.fill i key value =
        .ok (some m.heap.next, { heap := heap', data := m.data.store i m.heap.next }) ∧
      Filled m.heap heap' cells i (newElement key value) := by
  have hne : m.heap.next ≠ m.heap.next + 1 := (Nat.lt_succ_self _).ne
  have b₀ := malloc_next m.heap (.element blankElement)
  have s₁ := storeElement_live (fun e => { e with key := some key }) b₀
  have b₁ := replace_same (some (Block.element { blankElement with key := some key })) b₀
  have o₁ := (ho.malloc (.element blankElement) i).store
    (Block.element { blankElement with key := some key }) b₀
  have q₁ := malloc_next ((m.heap.malloc (.element blankElement)).replace m.heap.next
    (some (.element { blankElement with key := some key }))) (.chars (strlen value + 1) none)
  have b₂ := malloc_live (.chars (strlen value + 1) none) b₁
  have s₂ := strcpy_live q₁
  have q₂ := replace_same (some (charsOf value)) q₁
  have b₃ := (replace_block (some (charsOf value)) hne).trans b₂
  have o₃ := (o₁.malloc (.chars (strlen value + 1) none) i).store (charsOf value) q₁
  have s₃ := storeElement_live (fun e => { e with value := some (m.heap.next + 1) }) b₃
  have b₄ := replace_same (some (Block.element
    { blankElement with key := some key, value := some (m.heap.next + 1) })) b₃
  have o₄ := o₃.store (Block.element
    { blankElement with key := some key, value := some (m.heap.next + 1) }) b₃
  have s₄ := storeElement_live (fun e => { e with args := some [] }) b₄
  refine ⟨_, fill_of_steps s₁ s₂ s₃ s₄, ?_⟩
  exact
    { holds :=
        { element := replace_same _ b₄
          value := by
            rw [replace_block _ hne.symm, replace_block _ hne.symm]
            exact q₂ }
      frame := fun a ha ha' => by
        rw [replace_block _ ha, replace_block _ ha, replace_block _ ha',
          malloc_block _ ha', replace_block _ ha, malloc_block _ ha]
      owned := o₄.store _ b₄ }

theorem CellHolds.congr {heap' : Heap Block} {cell : Option (Nat × Nat)} {slot : Option Element}
    (h : CellHolds heap cell slot)
    (hsame : ∀ p q, cell = some (p, q) →
      heap'.block p = heap.block p ∧ heap'.block q = heap.block q) : CellHolds heap' cell slot := by
  cases h with
  | empty => exact .empty
  | @held p q e hholds =>
      obtain ⟨hp, hq⟩ := hsame p q rfl
      exact .held (hholds.congr hp hq)

theorem Represents.holds (h : Represents m cells map) (hc : cells i = some (p, q)) :
    ∃ e, map.data i = some e ∧ HoldsElement m.heap p q e := by
  have hcontent := h.content i
  rw [hc] at hcontent
  generalize map.data i = slot at hcontent
  cases hcontent with
  | held hholds => exact ⟨_, rfl, hholds⟩

theorem Represents.cell (h : Represents m cells map) (hs : map.data i = some e) :
    ∃ p q, cells i = some (p, q) ∧ HoldsElement m.heap p q e := by
  have hcontent := h.content i
  rw [hs] at hcontent
  generalize cells i = cell at hcontent
  cases hcontent with
  | held hholds => exact ⟨_, _, rfl, hholds⟩

theorem Represents.cell_none (h : Represents m cells map) (hs : map.data i = none) :
    cells i = none := by
  have hcontent := h.content i
  rw [hs] at hcontent
  generalize cells i = cell at hcontent
  cases hcontent
  rfl

theorem Represents.filled {heap' : Heap Block} (h : Represents m cells map) (hi : cells i = none)
    (hlt : i < maxMapSize) (hf : Filled m.heap heap' cells i e) :
    Represents { heap := heap', data := m.data.store i m.heap.next }
      (Function.update cells i (some (m.heap.next, m.heap.next + 1))) ⟨map.data.store i e⟩ where
  pointer j := by
    rcases eq_or_ne j i with rfl | hj
    · simp
    · simp only [store_other _ _ hj, Function.update_of_ne hj]
      exact h.pointer j
  content j := by
    rcases eq_or_ne j i with rfl | hj
    · simp only [store_same, Function.update_self]
      exact .held hf.holds
    · simp only [store_other _ _ hj, Function.update_of_ne hj]
      refine (h.content j).congr fun p q hc => ?_
      obtain ⟨e, -, hholds⟩ := h.holds hc
      have hp := lt_next hholds.element
      have hq := lt_next hholds.value
      exact ⟨hf.frame p (by omega) (by omega), hf.frame q (by omega) (by omega)⟩
  owned := hf.owned.congr fun j a => by
    rcases eq_or_ne j i with rfl | hj
    · simp [Cells.owns, hi]
    · simp [Cells.owns, hj]
  inside j hj := by
    rw [Function.update_of_ne (by omega)]
    exact h.inside j hj

theorem Represents.add (h : Represents m cells map) (key : UInt64) (value : CString) :
    ∃ elem m' cells', m.addElement key value = .ok (elem, m') ∧
      Represents m' cells' (addElement map key value).2 ∧
        elem = (addElement map key value).1.bind (fun i => (cells' i).map Prod.fst) ∧
          (elem = none ↔ (addElement map key value).1 = none) := by
  rw [h.add_eq, addElement]
  cases hv : vacantSlot map key with
  | none => exact ⟨none, m, cells, rfl, h, rfl, Iff.rfl⟩
  | some i =>
      rw [vacantSlot_eq] at hv
      obtain ⟨-, hlt, hnone, -⟩ := Scheme.vacancy_eq_some_iff.mp hv
      obtain ⟨heap', he, hf⟩ := fill_ok h.owned i key value
      exact ⟨_, _, _, he, h.filled (h.cell_none hnone) hlt hf, by simp, by simp⟩

theorem Represents.replaced {e' : Element} (h : Represents m cells map)
    (hc : cells i = some (p, q)) (hv : map.data i = some e) (hvalue : e'.value = e.value) :
    Represents { m with heap := m.heap.replace p (some (blockOf q e')) } cells
      ⟨map.data.store i e'⟩ := by
  obtain ⟨e₀, hs, hholds⟩ := h.holds hc
  obtain rfl := Option.some.inj (hv.symm.trans hs)
  refine
    { pointer := h.pointer, content := fun j => ?_, owned := h.owned.store _ hholds.element
      inside := h.inside }
  rcases eq_or_ne j i with rfl | hj
  · simp only [store_same, hc]
    refine .held ⟨replace_same _ hholds.element, ?_⟩
    rw [replace_block _ hholds.ne.symm, hvalue]
    exact hholds.value
  · simp only [store_other _ _ hj]
    refine (h.content j).congr fun p' q' hc' => ?_
    have hapart : ∀ a, cells.owns j a → a ≠ p := by
      rintro a ha rfl
      exact hj (h.owned.apart j i a ha ⟨a, q, hc, Or.inl rfl⟩)
    exact ⟨replace_block _ (hapart p' ⟨p', q', hc', Or.inl rfl⟩),
      replace_block _ (hapart q' ⟨p', q', hc', Or.inr rfl⟩)⟩

theorem Represents.lookup (h : Represents m cells map) (key : UInt64) :
    m.lookup key = .ok ((getElement map key).map Element.contents) := by
  rw [HeapMap.lookup, h.get_eq, getElement]
  cases getElementSlot map key with
  | none => rfl
  | some i =>
      have hcontent := h.content i
      rw [Option.bind_some, Option.bind_some]
      generalize cells i = cell at hcontent
      generalize map.data i = slot at hcontent
      cases hcontent with
      | empty => rfl
      | held hholds =>
          have hread := hholds.read
          simp only [bind, Except.bind, Option.map_some, hread]
          rfl

-- What is left to free when the slots before `i` have been.
structure Remaining (heap : Heap Block) (cells : Cells) (i : Nat) : Prop where
  held : ∀ j p q, i ≤ j → cells j = some (p, q) → ∃ e, HoldsElement heap p q e
  owned : heap.Owned (fun j a => i ≤ j ∧ cells.owns j a)

theorem Remaining.next_empty (h : Remaining heap cells i) (hc : cells i = none) :
    Remaining heap cells (i + 1) where
  held j p q hj := h.held j p q (by omega)
  owned := h.owned.congr fun j a => by
    rcases eq_or_ne j i with rfl | hne
    · simp [Cells.owns, hc]
    · exact and_congr_left fun _ => by omega

theorem Remaining.apart (h : Remaining heap cells i) {j : Nat} {p' q' : Nat} (hj : i + 1 ≤ j)
    (hc : cells i = some (p, q)) (hc' : cells j = some (p', q')) :
    p' ≠ p ∧ p' ≠ q ∧ q' ≠ p ∧ q' ≠ q := by
  have hne : ∀ a, cells.owns j a → cells.owns i a → False := by
    intro a ha hb
    have hji := h.owned.apart j i a ⟨by omega, ha⟩ ⟨Nat.le_refl i, hb⟩
    omega
  refine ⟨?_, ?_, ?_, ?_⟩
  · rintro rfl
    exact hne p' ⟨p', q', hc', Or.inl rfl⟩ ⟨p', q, hc, Or.inl rfl⟩
  · rintro rfl
    exact hne p' ⟨p', q', hc', Or.inl rfl⟩ ⟨p, p', hc, Or.inr rfl⟩
  · rintro rfl
    exact hne q' ⟨p', q', hc', Or.inr rfl⟩ ⟨q', q, hc, Or.inl rfl⟩
  · rintro rfl
    exact hne q' ⟨p', q', hc', Or.inr rfl⟩ ⟨p, q', hc, Or.inr rfl⟩

theorem Remaining.next_freed (h : Remaining heap cells i) (hc : cells i = some (p, q))
    (hholds : HoldsElement heap p q e) :
    Remaining ((heap.replace q none).replace p none) cells (i + 1) where
  held j p' q' hj hc' := by
    obtain ⟨e', hholds'⟩ := h.held j p' q' (by omega) hc'
    obtain ⟨hpp, hpq, hqp, hqq⟩ := h.apart hj hc hc'
    exact ⟨e', hholds'.congr (by rw [replace_block _ hpp, replace_block _ hpq])
      (by rw [replace_block _ hqp, replace_block _ hqq])⟩
  owned := by
    have hp : (heap.replace q none).block p = some (blockOf q e) := by
      rw [replace_block _ hholds.ne, hholds.element]
    refine ((h.owned.free hholds.value).free hp).congr fun j a => ?_
    rcases eq_or_ne j i with rfl | hne
    · simp only [Cells.owns, hc, Option.some.injEq, Prod.mk.injEq]
      constructor
      · rintro ⟨⟨⟨-, p', q', ⟨rfl, rfl⟩, ha⟩, haq⟩, hap⟩
        exact (ha.elim hap haq).elim
      · rintro ⟨hlt, -⟩
        omega
    · constructor
      · rintro ⟨⟨⟨hle, ho⟩, -⟩, -⟩
        exact ⟨by omega, ho⟩
      · rintro ⟨hle, p', q', hc', ha⟩
        obtain ⟨hpp, hpq, hqp, hqq⟩ := h.apart hle hc hc'
        refine ⟨⟨⟨by omega, p', q', hc', ha⟩, ?_⟩, ?_⟩
        · exact ha.elim (fun hp => hp ▸ hpq) fun hq => hq ▸ hqq
        · exact ha.elim (fun hp => hp ▸ hpp) fun hq => hq ▸ hqp

theorem destroyLoop_ok {data : Slots Nat} (hd : ∀ i, data i = (cells i).map Prod.fst)
    (hinside : ∀ i, maxMapSize ≤ i → cells i = none) (n : Nat) (hn : i + n = maxMapSize)
    (h : Remaining heap cells i) :
    ∃ heap', destroyLoop data n i heap = .ok heap' ∧ ∀ a, heap'.block a = none := by
  induction n generalizing i heap with
  | zero =>
      refine ⟨heap, rfl, fun a => ?_⟩
      by_contra ha
      obtain ⟨j, hj, p, q, hc, -⟩ := (h.owned.live a).mp ha
      rw [hinside j (by omega)] at hc
      cases hc
  | succ n ih =>
      rw [destroyLoop, hd]
      cases hc : cells i with
      | none => exact ih (by omega) (h.next_empty hc)
      | some cell =>
          obtain ⟨p, q⟩ := cell
          obtain ⟨e, hholds⟩ := h.held i p q (Nat.le_refl i) hc
          have hp : (heap.replace q none).block p = some (blockOf q e) := by
            rw [replace_block _ hholds.ne, hholds.element]
          have hload := hholds.load
          have hfreeValue := free_live hholds.value
          have hfree := free_live hp
          obtain ⟨heap', he, hdead⟩ := ih (by omega) (h.next_freed hc hholds)
          refine ⟨heap', ?_, hdead⟩
          simp only [Option.map_some, bind, Except.bind, hload, initialized, pure, Except.pure,
            checked, hfreeValue, Except.mapError, hfree, he]

theorem Represents.destroyed (h : Represents m cells map) :
    ∃ heap', m.destroy = .ok { m with heap := heap' } ∧ ∀ a, heap'.block a = none := by
  obtain ⟨heap', he, hdead⟩ := @destroyLoop_ok cells m.heap 0 m.data h.pointer h.inside maxMapSize
    (Nat.zero_add _)
    { held := fun j p q _ hc => (h.holds hc).imp fun _ hholds => hholds.2
      owned := h.owned.congr fun j a => ⟨fun ho => ⟨Nat.zero_le j, ho⟩, And.right⟩ }
  exact ⟨heap', by rw [HeapMap.destroy, he]; rfl, hdead⟩

theorem index_lt (key : UInt64) : index key < maxMapSize := by
  have hmod := Nat.mod_lt key.toNat (show 0 < maxHashSize by decide)
  rw [index, maxMapSize, redundancyMap]
  rw [maxHashSize] at hmod ⊢
  omega

theorem getElement_dead (hdead : ∀ a, m.heap.block a = none) (key : UInt64) :
    m.getElement key =
      match m.data (index key) with
      | none => .ok none
      | some _ => .error (.memory .access) := by
  have hlt := index_lt key
  obtain ⟨n, hn⟩ : ∃ n, maxMapSize - index key = n + 1 := ⟨maxMapSize - index key - 1, by omega⟩
  rw [HeapMap.getElement, hn, HeapMap.getElementLoop]
  cases m.data (index key) with
  | none => rfl
  | some p =>
      simp only [loadElement_dead (hdead p)]
      rfl

theorem destroyLoop_dead {data : Slots Nat} (hdead : ∀ a, heap.block a = none) (n i : Nat) :
    destroyLoop data n i heap =
      if ∀ j, i ≤ j → j < i + n → data j = none then .ok heap else .error (.memory .access) := by
  induction n generalizing i with
  | zero =>
      rw [if_pos fun j hj hlt => by omega]
      rfl
  | succ n ih =>
      rw [destroyLoop]
      cases hd : data i with
      | none =>
          have hiff : (∀ j, i + 1 ≤ j → j < i + 1 + n → data j = none) ↔
              ∀ j, i ≤ j → j < i + (n + 1) → data j = none := by
            constructor
            · intro h j hj hlt
              rcases eq_or_ne j i with rfl | hne
              · exact hd
              · exact h j (by omega) (by omega)
            · intro h j hj hlt
              exact h j (by omega) (by omega)
          simp only [ih, hiff]
      | some p =>
          have hneg : ¬∀ j, i ≤ j → j < i + (n + 1) → data j = none := fun h => by
            have hi := h i (Nat.le_refl i) (by omega)
            rw [hd] at hi
            cases hi
          rw [if_neg hneg]
          simp only [loadElement_dead (hdead p)]
          rfl

end IdMap
