import Mathlib.Tactic

namespace Positional

variable {A B M : Type} {l : List A}

def PermInvariant (F : List A → B) (l : List A) : Prop := ∀ l', l'.Perm l → F l' = F l

def Agree (g : A → B) (l : List A) : Prop := ∀ a ∈ l, ∀ b ∈ l, g a = g b

theorem Agree.of_perm {g : A → B} {l' : List A} (h : Agree g l) (hp : l'.Perm l) {a b : A}
    (ha : a ∈ l') (hb : b ∈ l) : g a = g b := h a (hp.mem_iff.mp ha) b hb

theorem exists_perm_swap {i j : Nat} (hi : i < l.length) (hj : j < l.length) :
    ∃ l' : List A, l'.Perm l ∧ l'[i]? = l[j]? ∧ ∀ k, k ≠ i → k ≠ j → l'[k]? = l[k]? := by
  refine ⟨(l.set i l[j]).set j l[i], List.set_set_perm hi hj, ?_, fun k hki hkj => ?_⟩
  · rcases eq_or_ne i j with rfl | hij
    · simp [hi]
    · simp [Ne.symm hij, hi, hj]
  · simp [Ne.symm hki, Ne.symm hkj]

theorem permInvariant_read_iff (g : A → B) {i : Nat} (hi : i < l.length) :
    PermInvariant (fun l => l[i]?.map g) l ↔ Agree g l := by
  constructor
  · intro h
    have heq : ∀ a ∈ l, some (g a) = l[i]?.map g := by
      intro a ha
      obtain ⟨j, hj, rfl⟩ := List.mem_iff_getElem.mp ha
      obtain ⟨l', hp, hget, -⟩ := exists_perm_swap hi hj
      have hread : l'[i]?.map g = l[i]?.map g := h l' hp
      rw [hget, List.getElem?_eq_getElem hj] at hread
      exact hread
    exact fun a ha b hb => Option.some.inj ((heq a ha).trans (heq b hb).symm)
  · intro h l' hp
    have hi' : i < l'.length := hp.length_eq ▸ hi
    simp only [List.getElem?_eq_getElem hi, List.getElem?_eq_getElem hi', Option.map_some]
    exact congrArg some (h.of_perm hp (List.getElem_mem hi') (List.getElem_mem hi))

section Sums

variable [AddCommGroup M]

def valueAt (g : A → M) (l : List A) (i : Nat) : M := (l[i]?.map g).getD 0

def readSum (g : A → M) (is : List Nat) (l : List A) : M := (is.map (valueAt g l)).sum

variable {g : A → M} {is : List Nat}

theorem valueAt_of_lt {i : Nat} (hi : i < l.length) : valueAt g l i = g l[i] := by
  simp [valueAt, hi]

theorem readSum_range (g : A → M) (l : List A) :
    readSum g (List.range l.length) l = (l.map g).sum := by
  have hmap : (List.range l.length).map (valueAt g l) = l.map g := by
    apply List.ext_getElem (by simp)
    intro i hi hi'
    have hlt : i < l.length := by simpa using hi
    simp [valueAt_of_lt hlt]
  rw [readSum, hmap]

theorem readSum_perm {js : List Nat} (h : is.Perm js) (l : List A) :
    readSum g is l = readSum g js l := (h.map _).sum_eq

theorem perm_range (hn : is.Nodup) (hlt : ∀ i ∈ is, i < l.length) (hlen : is.length = l.length) :
    is.Perm (List.range l.length) := by
  have hsub : is.Subperm (List.range l.length) :=
    List.subperm_of_subset hn fun i hi => List.mem_range.mpr (hlt i hi)
  exact hsub.perm_of_length_le (by simp [hlen])

theorem exists_unread (hlt : is.length < l.length) : ∃ k < l.length, k ∉ is := by
  by_contra hc
  push Not at hc
  have hsub : (List.range l.length).Subperm is :=
    List.subperm_of_subset List.nodup_range fun k hk => hc k (List.mem_range.mp hk)
  have hle := hsub.length_le
  rw [List.length_range] at hle
  omega

-- Swapping a read position with one that is not read changes the sum by their difference.
theorem PermInvariant.valueAt_eq (h : PermInvariant (readSum g is) l) (hn : is.Nodup)
    {i k : Nat} (hi : i ∈ is) (hil : i < l.length) (hk : k ∉ is) (hkl : k < l.length) :
    valueAt g l k = valueAt g l i := by
  obtain ⟨l', hp, hget, hother⟩ := exists_perm_swap hil hkl
  have hcons := List.perm_cons_erase hi
  have hsum := h l' hp
  rw [readSum_perm hcons, readSum_perm hcons, readSum, readSum, List.map_cons, List.map_cons,
    List.sum_cons, List.sum_cons] at hsum
  have hrest : (is.erase i).map (valueAt g l') = (is.erase i).map (valueAt g l) := by
    apply List.map_congr_left
    intro j hj
    have hji : j ≠ i := fun he => hn.not_mem_erase (he ▸ hj)
    have hjk : j ≠ k := fun he => hk (he ▸ List.mem_of_mem_erase hj)
    rw [valueAt, valueAt, hother j hji hjk]
  have hvalue : valueAt g l' i = valueAt g l k := by rw [valueAt, valueAt, hget]
  rw [hrest, hvalue] at hsum
  exact add_right_cancel hsum

theorem permInvariant_readSum_iff (hn : is.Nodup) (hlt : ∀ i ∈ is, i < l.length) :
    PermInvariant (readSum g is) l ↔ is = [] ∨ is.length = l.length ∨ Agree g l := by
  constructor
  · intro h
    by_contra hc
    push Not at hc
    obtain ⟨hne, hlen, hagree⟩ := hc
    obtain ⟨i, hi⟩ := List.exists_mem_of_ne_nil is hne
    have hle : is.length ≤ l.length := by
      have hsub : is.Subperm (List.range l.length) :=
        List.subperm_of_subset hn fun i hi => List.mem_range.mpr (hlt i hi)
      simpa using hsub.length_le
    obtain ⟨k, hkl, hk⟩ := exists_unread (l := l) (lt_of_le_of_ne hle hlen)
    have hall : ∀ j, j < l.length → valueAt g l j = valueAt g l k := by
      intro j hj
      by_cases hmem : j ∈ is
      · exact (h.valueAt_eq hn hmem hj hk hkl).symm
      · exact (h.valueAt_eq hn hi (hlt i hi) hmem hj).trans
          (h.valueAt_eq hn hi (hlt i hi) hk hkl).symm
    apply hagree
    intro a ha b hb
    obtain ⟨p, hp, rfl⟩ := List.mem_iff_getElem.mp ha
    obtain ⟨q, hq, rfl⟩ := List.mem_iff_getElem.mp hb
    calc g l[p] = valueAt g l p := (valueAt_of_lt hp).symm
      _ = valueAt g l q := (hall p hp).trans (hall q hq).symm
      _ = g l[q] := valueAt_of_lt hq
  · rintro (rfl | hlen | h) l' hp
    · rfl
    · have hrange := perm_range hn hlt hlen
      have hrange' : is.Perm (List.range l'.length) := hp.length_eq ▸ hrange
      rw [readSum_perm hrange' l', readSum_perm hrange l, readSum_range, readSum_range]
      exact (hp.map g).sum_eq
    · rw [readSum, readSum]
      refine congrArg List.sum (List.map_congr_left fun i hi => ?_)
      have hil := hlt i hi
      have hil' : i < l'.length := hp.length_eq ▸ hil
      rw [valueAt_of_lt hil, valueAt_of_lt hil']
      exact h.of_perm hp (List.getElem_mem hil') (List.getElem_mem hil)

end Sums

section Blocks

variable {C : Type} {emit : A → List B} {other : A → List C} {a : A} {i n : Nat}

-- How much `flatMap` has emitted when it comes to the element at `i`.
def blockStart (emit : A → List B) (l : List A) (i : Nat) : Nat := ((l.take i).flatMap emit).length

def InBlock (emit : A → List B) (l : List A) (i n : Nat) : Prop :=
  blockStart emit l i ≤ n ∧ n < blockStart emit l (i + 1)

theorem blockStart_succ (h : l[i]? = some a) :
    blockStart emit l (i + 1) = blockStart emit l i + (emit a).length := by
  rw [blockStart, List.take_add_one, h, Option.toList_some, List.flatMap_append,
    List.length_append, List.flatMap_singleton]
  rfl

theorem blockStart_cons (a : A) (l : List A) (i : Nat) :
    blockStart emit (a :: l) (i + 1) = (emit a).length + blockStart emit l i := by
  rw [blockStart, List.take_succ_cons, List.flatMap_cons, List.length_append]
  rfl

theorem blockStart_congr (h : ∀ a ∈ l, (emit a).length = (other a).length) (i : Nat) :
    blockStart emit l i = blockStart other l i := by
  rw [blockStart, blockStart, List.length_flatMap, List.length_flatMap,
    List.map_congr_left fun a ha => h a (List.mem_of_mem_take ha)]

theorem InBlock.congr (h : ∀ a ∈ l, (emit a).length = (other a).length)
    (hn : InBlock emit l i n) : InBlock other l i n := by
  rw [InBlock, ← blockStart_congr h, ← blockStart_congr h]
  exact hn

theorem exists_block (h : n < (l.flatMap emit).length) :
    ∃ i a, l[i]? = some a ∧ InBlock emit l i n := by
  induction l generalizing n with
  | nil => cases h
  | cons a l ih =>
      have hstart : blockStart emit (a :: l) 0 = 0 := rfl
      rw [List.flatMap_cons, List.length_append] at h
      rcases Nat.lt_or_ge n (emit a).length with hn | hn
      · refine ⟨0, a, rfl, hstart ▸ Nat.zero_le n, ?_⟩
        rw [blockStart_cons]
        exact Nat.lt_add_right _ hn
      · obtain ⟨i, b, hb, hlo, hhi⟩ := ih (n := n - (emit a).length) (by omega)
        refine ⟨i + 1, b, hb, ?_, ?_⟩
        · rw [blockStart_cons]
          omega
        · rw [blockStart_cons]
          omega

theorem getElem?_flatMap (h : l[i]? = some a) (hn : InBlock emit l i n) :
    (l.flatMap emit)[n]? = (emit a)[n - blockStart emit l i]? := by
  obtain ⟨hlo, hhi⟩ := hn
  rw [blockStart_succ h] at hhi
  obtain ⟨hlt, rfl⟩ := List.getElem?_eq_some_iff.mp h
  have hsplit : l.flatMap emit =
      (l.take i).flatMap emit ++ (emit l[i] ++ (l.drop (i + 1)).flatMap emit) := by
    rw [← List.flatMap_cons, ← List.drop_eq_getElem_cons hlt, ← List.flatMap_append,
      List.take_append_drop]
  rw [hsplit, List.getElem?_append_right hlo, List.getElem?_append_left]
  · rfl
  · exact Nat.sub_lt_left_of_lt_add hlo hhi

end Blocks

section Traversal

variable {E : Type} {f : A → Except E B} {R : A → B → Prop} {Q : E → Prop}

theorem mapM_ok (h : ∀ a ∈ l, ∃ b, f a = .ok b ∧ R a b) :
    ∃ bs, l.mapM f = .ok bs ∧ List.Forall₂ R l bs := by
  induction l with
  | nil => exact ⟨[], rfl, .nil⟩
  | cons a l ih =>
      obtain ⟨b, hb, hr⟩ := h a List.mem_cons_self
      obtain ⟨bs, hbs, hrs⟩ := ih fun c hc => h c (List.mem_cons_of_mem a hc)
      refine ⟨b :: bs, ?_, .cons hr hrs⟩
      rw [List.mapM_cons, hb, hbs]
      rfl

theorem mapM_error (h : ∀ a ∈ l, (∃ b, f a = .ok b) ∨ ∃ e, f a = .error e ∧ Q e)
    (hfail : ∃ a ∈ l, ∀ b, f a ≠ .ok b) : ∃ e, l.mapM f = .error e ∧ Q e := by
  induction l with
  | nil =>
      obtain ⟨_, hmem, -⟩ := hfail
      cases hmem
  | cons a l ih =>
      rcases h a List.mem_cons_self with ⟨b, hb⟩ | ⟨e, he, hq⟩
      · have hrest : ∃ c ∈ l, ∀ b, f c ≠ .ok b := by
          obtain ⟨c, hmem, hc⟩ := hfail
          rcases List.mem_cons.mp hmem with rfl | hl
          · exact absurd hb (hc b)
          · exact ⟨c, hl, hc⟩
        obtain ⟨e, he, hq⟩ := ih (fun c hc => h c (List.mem_cons_of_mem a hc)) hrest
        refine ⟨e, ?_, hq⟩
        rw [List.mapM_cons, hb, he]
        rfl
      · refine ⟨e, ?_, hq⟩
        rw [List.mapM_cons, he]
        rfl

end Traversal

theorem exists_perm_filterMap {f : A → Option B} {bs : List B} (h : bs.Perm (l.filterMap f)) :
    ∃ l' : List A, l'.Perm l ∧ l'.filterMap f = bs := by
  induction bs generalizing l with
  | nil => exact ⟨l, List.Perm.refl l, h.nil_eq.symm⟩
  | cons b bs ih =>
      obtain ⟨a, ha, hb⟩ := List.mem_filterMap.mp (h.subset List.mem_cons_self)
      obtain ⟨s, t, rfl⟩ := List.append_of_mem ha
      rw [List.filterMap_append, List.filterMap_cons_some hb] at h
      have hrest : bs.Perm ((s ++ t).filterMap f) := by
        rw [List.filterMap_append]
        exact (h.trans List.perm_middle).cons_inv
      obtain ⟨l', hp, he⟩ := ih hrest
      exact ⟨a :: l', (hp.cons a).trans List.perm_middle.symm,
        by rw [List.filterMap_cons_some hb, he]⟩

theorem exists_perm_last {a : A} (h : a ∈ l) : ∃ l' : List A, (l' ++ [a]).Perm l := by
  obtain ⟨s, t, rfl⟩ := List.append_of_mem h
  refine ⟨s ++ t, ?_⟩
  rw [List.append_assoc]
  exact (List.perm_append_singleton a t).append_left s

section TwoKinds

variable {key : A → Nat} {a : A} {low high : List A}

theorem orderedInsert_low (ha : key a = 0) (l : List A) :
    l.orderedInsert (fun a b => key a ≤ key b) a = a :: l := by
  cases l with
  | nil => rfl
  | cons b l => exact if_pos (by omega)

theorem orderedInsert_high (ha : key a = 1) (hlow : ∀ b ∈ low, key b = 0)
    (hhigh : ∀ b ∈ high, key b = 1) :
    (low ++ high).orderedInsert (fun a b => key a ≤ key b) a = low ++ a :: high := by
  induction low with
  | nil =>
      cases high with
      | nil => rfl
      | cons b high =>
          have hb := hhigh b List.mem_cons_self
          exact if_pos (by omega)
  | cons b low ih =>
      obtain ⟨hb, hrest⟩ := List.forall_mem_cons.mp hlow
      have hlt : ¬key a ≤ key b := by omega
      rw [List.cons_append, List.orderedInsert, if_neg hlt, ih hrest]
      rfl

-- A stable sort of elements of two kinds.
theorem insertionSort_two (h : ∀ a ∈ l, key a = 0 ∨ key a = 1) :
    l.insertionSort (fun a b => key a ≤ key b) =
      l.filter (fun a => key a = 0) ++ l.filter (fun a => key a = 1) := by
  induction l with
  | nil => rfl
  | cons a l ih =>
      obtain ⟨ha, hl⟩ := List.forall_mem_cons.mp h
      rw [List.insertionSort_cons, ih hl]
      rcases ha with hzero | hone
      · rw [orderedInsert_low hzero, List.filter_cons_of_pos (by simp [hzero]),
          List.filter_cons_of_neg (by simp [hzero])]
        rfl
      · rw [orderedInsert_high hone (by simp) (by simp), List.filter_cons_of_neg (by simp [hone]),
          List.filter_cons_of_pos (by simp [hone])]

end TwoKinds

end Positional
