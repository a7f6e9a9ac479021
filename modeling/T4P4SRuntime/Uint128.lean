import T4P4SRuntime.Library.TwoWords
import T4P4SRuntime.Proto

namespace P4v1.Uint128

open TwoWords

def ofInteger (i : UInt64) : Uint128 := { high := 0, low := i }

def addAssign (n other : Uint128) : Uint128 :=
  let high := n.high + other.high
  let newLow := n.low + other.low
  { high := if newLow < n.low then high + 1 else high, low := newLow }

def subAssign (n other : Uint128) : Uint128 :=
  let high := n.high - other.high
  let newLow := n.low - other.low
  { high := if newLow > n.low then high - 1 else high, low := newLow }

def preIncrement (n : Uint128) : Uint128 := n.addAssign (ofInteger 1)

-- The value of the expression, and what is stored.
def postIncrement (n : Uint128) : Uint128 × Uint128 := (n, n.addAssign (ofInteger 1))

def preDecrement (n : Uint128) : Uint128 := n.subAssign (ofInteger 1)

def postDecrement (n : Uint128) : Uint128 × Uint128 := (n, n.subAssign (ofInteger 1))

def eq (a b : Uint128) : Bool := a.high = b.high && a.low = b.low

def ne (a b : Uint128) : Bool := !a.eq b

def lt (a b : Uint128) : Bool := a.high < b.high || (a.high = b.high && a.low < b.low)

def le (a b : Uint128) : Bool := a.high < b.high || (a.high = b.high && a.low ≤ b.low)

def gt (a b : Uint128) : Bool := !a.le b

def ge (a b : Uint128) : Bool := !a.lt b

def hex (n : UInt64) : List Char := Nat.toDigits 16 n.toNat

-- `operator<<` on a stream with the default format.
def print (n : Uint128) : List Char :=
  ['0', 'x'] ++ if n.high = 0 then hex n.low else hex n.high ++ (hex n.low).leftpad 16 '0'

def toNat (n : Uint128) : Nat := value (2 ^ 64) n.high.toNat n.low.toNat

variable {a b n other : Uint128}

theorem toNat_lt (n : Uint128) : n.toNat < 2 ^ 128 := value_lt n.high.toNat_lt n.low.toNat_lt

theorem toNat_inj : a.toNat = b.toNat ↔ a = b := by
  rw [toNat, toNat, value_inj a.low.toNat_lt b.low.toNat_lt, UInt64.toNat_inj, UInt64.toNat_inj]
  constructor
  · intro h
    cases a
    cases b
    simpa using h
  · rintro rfl
    exact ⟨rfl, rfl⟩

theorem toNat_lt_iff : a.toNat < b.toNat ↔ a.lt b = true := by
  rw [toNat, toNat, value_lt_iff a.low.toNat_lt b.low.toNat_lt, lt, ← UInt64.lt_iff_toNat_lt,
    ← UInt64.lt_iff_toNat_lt, UInt64.toNat_inj]
  simp

theorem toNat_le_iff : a.toNat ≤ b.toNat ↔ a.le b = true := by
  rw [← Nat.not_lt, toNat, toNat, value_lt_iff b.low.toNat_lt a.low.toNat_lt, le, Bool.or_eq_true,
    Bool.and_eq_true, decide_eq_true_eq, decide_eq_true_eq, decide_eq_true_eq,
    UInt64.lt_iff_toNat_lt, UInt64.le_iff_toNat_le, ← UInt64.toNat_inj]
  omega

theorem toNat_addAssign (n other : Uint128) :
    (n.addAssign other).toNat = (n.toNat + other.toNat) % 2 ^ 128 := by
  have hadd := value_add n.high.toNat other.high.toNat n.low.toNat_lt other.low.toNat_lt
  have hcarry : n.low + other.low < n.low ↔
      (n.low.toNat + other.low.toNat) % 2 ^ 64 < n.low.toNat := by
    rw [UInt64.lt_iff_toNat_lt, UInt64.toNat_add]
  have hsquare : 2 ^ 64 * 2 ^ 64 = 2 ^ 128 := by norm_num
  rw [toNat, toNat, toNat, ← hsquare, ← hadd, addAssign]
  dsimp only
  rw [UInt64.toNat_add]
  congr 1
  by_cases hc : n.low + other.low < n.low
  · rw [if_pos hc, if_pos (hcarry.mp hc), UInt64.toNat_add, UInt64.toNat_add, Nat.mod_add_mod]
    rfl
  · rw [if_neg hc, if_neg (mt hcarry.mpr hc), UInt64.toNat_add, Nat.add_zero]

theorem toNat_subAssign (n other : Uint128) :
    ((n.subAssign other).toNat + other.toNat) % 2 ^ 128 = n.toNat := by
  have hborrow : n.low < n.low - other.low ↔
      n.low.toNat < (2 ^ 64 - other.low.toNat + n.low.toNat) % 2 ^ 64 := by
    rw [UInt64.lt_iff_toNat_lt, UInt64.toNat_sub]
  have hlow : (n.subAssign other).low.toNat =
      (2 ^ 64 - other.low.toNat + n.low.toNat) % 2 ^ 64 := UInt64.toNat_sub n.low other.low
  have hone : (1 : UInt64).toNat = 1 := rfl
  have hn := n.high.toNat_lt
  have ho := other.high.toNat_lt
  have hhigh : ((n.subAssign other).high.toNat + other.high.toNat +
      if n.low.toNat < (2 ^ 64 - other.low.toNat + n.low.toNat) % 2 ^ 64 then 1 else 0) % 2 ^ 64 =
        n.high.toNat := by
    rw [subAssign]
    by_cases hb : n.low < n.low - other.low
    · simp only [gt_iff_lt, if_pos hb, if_pos (hborrow.mp hb), UInt64.toNat_sub, hone]
      omega
    · simp only [gt_iff_lt, if_neg hb, if_neg (mt hborrow.mpr hb), UInt64.toNat_sub]
      omega
  have hsub := value_sub n.low.toNat_lt other.low.toNat_lt hhigh
  rwa [← hlow] at hsub

theorem toNat_ofInteger_one : (ofInteger 1).toNat = 1 := rfl

theorem uint128_is_number (m n : Uint128) :
    (m.addAssign n).toNat = (m.toNat + n.toNat) % 2 ^ 128 ∧
      ((m.subAssign n).toNat + n.toNat) % 2 ^ 128 = m.toNat ∧
      m.postIncrement = (m, m.preIncrement) ∧ m.postDecrement = (m, m.preDecrement) ∧
      m.preIncrement.toNat = (m.toNat + 1) % 2 ^ 128 ∧ m.preIncrement.preDecrement = m ∧
      (m.eq n = true ↔ m.toNat = n.toNat) ∧ (m.ne n = true ↔ m.toNat ≠ n.toNat) ∧
      (m.lt n = true ↔ m.toNat < n.toNat) ∧ (m.le n = true ↔ m.toNat ≤ n.toNat) ∧
      (m.gt n = true ↔ m.toNat > n.toNat) ∧ (m.ge n = true ↔ m.toNat ≥ n.toNat) := by
  have heq : m.eq n = true ↔ m.toNat = n.toNat := by
    rw [toNat_inj, eq]
    cases m
    cases n
    simp
  have hincrement := toNat_addAssign m (ofInteger 1)
  refine ⟨toNat_addAssign m n, toNat_subAssign m n, rfl, rfl, hincrement, ?_, heq, ?_,
    toNat_lt_iff.symm, toNat_le_iff.symm, ?_, ?_⟩
  · have hm := toNat_lt m
    have hback := toNat_subAssign m.preIncrement (ofInteger 1)
    have hd := toNat_lt m.preIncrement.preDecrement
    rw [← toNat_inj]
    rw [toNat_ofInteger_one] at hincrement hback
    rw [preIncrement, hincrement, ← preIncrement, ← preDecrement] at hback
    omega
  · rw [ne, Bool.not_eq_true', ← Bool.not_eq_true, heq]
  · rw [gt, Bool.not_eq_true', ← Bool.not_eq_true, ← toNat_le_iff, Nat.not_le]
  · rw [ge, Bool.not_eq_true', ← Bool.not_eq_true, ← toNat_lt_iff, Nat.not_lt]

theorem word_digits : 2 ^ 64 = 16 ^ (15 + 1) := by norm_num

theorem hex_split (n : Uint128) (hpos : 0 < n.high.toNat) :
    hex n.high ++ (hex n.low).leftpad 16 '0' = Nat.toDigits 16 n.toNat := by
  have hlow := n.low.toNat_lt
  rw [word_digits] at hlow
  rw [hex, hex, toNat, value, word_digits, toDigits_split (by norm_num : 1 < 16) hpos 15 hlow]

theorem print_word (low : UInt64) :
    print { high := 0, low } = ['0', 'x'] ++ Nat.toDigits 16 (toNat { high := 0, low }) := by
  rw [print, if_pos rfl, toNat, value, UInt64.toNat_zero, Nat.zero_mul, Nat.zero_add, hex]

theorem high_pos (hhigh : n.high ≠ 0) : 0 < n.high.toNat := by
  apply Nat.pos_of_ne_zero
  intro h
  exact hhigh (UInt64.toNat_inj.mp h)

theorem print_words (hhigh : n.high ≠ 0) : n.print = ['0', 'x'] ++ Nat.toDigits 16 n.toNat := by
  rw [print, if_neg hhigh, hex_split n (high_pos hhigh)]

theorem print_eq (n : Uint128) : n.print = ['0', 'x'] ++ Nat.toDigits 16 n.toNat := by
  rcases eq_or_ne n.high 0 with hhigh | hhigh
  · obtain ⟨high, low⟩ := n
    subst hhigh
    exact print_word low
  · exact print_words hhigh

def hexDigit (c : Char) : Nat := if c.toNat < 58 then c.toNat - 48 else c.toNat - 87

theorem hexDigit_digitChar : ∀ d < 16, hexDigit d.digitChar = d := by decide

theorem take_mark (digits : List Char) : (['0', 'x'] ++ digits).take 2 = ['0', 'x'] := rfl

theorem drop_mark (digits : List Char) : (['0', 'x'] ++ digits).drop 2 = digits := rfl

theorem print_reads_back (n : Uint128) :
    n.print.take 2 = ['0', 'x'] ∧ readDigits 16 hexDigit (n.print.drop 2) = n.toNat ∧
      (∀ m : Uint128, m.print = n.print ↔ m = n) := by
  have hdrop (m : Uint128) : readDigits 16 hexDigit (m.print.drop 2) = m.toNat := by
    rw [print_eq, drop_mark, readDigits_toDigits (by norm_num) hexDigit_digitChar m.toNat]
  refine ⟨by rw [print_eq, take_mark], hdrop n, fun m => ⟨fun he => ?_, congrArg print⟩⟩
  rw [← toNat_inj, ← hdrop m, ← hdrop n, he]

end P4v1.Uint128
