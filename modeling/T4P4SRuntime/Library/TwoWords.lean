import Mathlib.Tactic

namespace TwoWords

variable {b h h' l l' : Nat}

-- The number written with the two digits `h` and `l` in base `b`.
def value (b h l : Nat) : Nat := h * b + l

theorem value_lt (hh : h < b) (hl : l < b) : value b h l < b * b := by
  have hmul : (h + 1) * b ≤ b * b := Nat.mul_le_mul_right b hh
  rw [Nat.add_mul, Nat.one_mul] at hmul
  rw [value]
  omega

theorem value_lt_iff (hl : l < b) (hl' : l' < b) :
    value b h l < value b h' l' ↔ h < h' ∨ (h = h' ∧ l < l') := by
  rw [value, value]
  rcases Nat.lt_trichotomy h h' with hlt | rfl | hgt
  · have hmul : (h + 1) * b ≤ h' * b := Nat.mul_le_mul_right b hlt
    rw [Nat.add_mul, Nat.one_mul] at hmul
    exact iff_of_true (by omega) (Or.inl hlt)
  · simp
  · have hmul : (h' + 1) * b ≤ h * b := Nat.mul_le_mul_right b hgt
    rw [Nat.add_mul, Nat.one_mul] at hmul
    exact iff_of_false (by omega) (by omega)

theorem value_inj (hl : l < b) (hl' : l' < b) :
    value b h l = value b h' l' ↔ h = h' ∧ l = l' := by
  have hlt : value b h l < value b h' l' ↔ _ := value_lt_iff hl hl'
  have hgt : value b h' l' < value b h l ↔ _ := value_lt_iff hl' hl
  constructor
  · intro he
    rw [he] at hlt hgt
    simp only [lt_self_iff_false, false_iff, not_or, not_and] at hlt hgt
    omega
  · rintro ⟨rfl, rfl⟩
    rfl

theorem value_mod (hl : l < b) : value b (h % b) l = value b h l % (b * b) := by
  have hb : 0 < b := by omega
  rw [value, value, Nat.mod_mul, Nat.mul_comm h b, Nat.mul_add_mod, Nat.mod_eq_of_lt hl,
    Nat.mul_add_div hb, Nat.div_eq_of_lt hl, Nat.add_zero, Nat.add_comm, Nat.mul_comm b]

-- The sum of the low words came out below one of them exactly when it wrapped.
theorem low_carry (hl : l < b) (hl' : l' < b) :
    l + l' = (if (l + l') % b < l then 1 else 0) * b + (l + l') % b := by
  rcases Nat.lt_or_ge (l + l') b with hlt | hge
  · rw [Nat.mod_eq_of_lt hlt, if_neg (by omega)]
    omega
  · have hmod : (l + l') % b = l + l' - b := by
      rw [Nat.mod_eq_sub_mod hge, Nat.mod_eq_of_lt (by omega)]
    rw [hmod, if_pos (by omega)]
    omega

theorem value_add (h h' : Nat) (hl : l < b) (hl' : l' < b) :
    value b ((h + h' + if (l + l') % b < l then 1 else 0) % b) ((l + l') % b) =
      (value b h l + value b h' l') % (b * b) := by
  have hsum := low_carry hl hl'
  rw [value_mod (Nat.mod_lt _ (by omega))]
  congr 1
  rw [value, value, value]
  calc (h + h' + if (l + l') % b < l then 1 else 0) * b + (l + l') % b
      = h * b + h' * b + ((if (l + l') % b < l then 1 else 0) * b + (l + l') % b) := by ring
    _ = h * b + l + (h' * b + l') := by rw [← hsum]; ring

theorem low_borrow (hl : l < b) (hl' : l' < b) :
    (b - l' + l) % b + l' = (if l < (b - l' + l) % b then 1 else 0) * b + l := by
  rcases Nat.lt_or_ge l l' with hlt | hge
  · rw [Nat.mod_eq_of_lt (by omega), if_pos (by omega)]
    omega
  · have hmod : (b - l' + l) % b = l - l' := by
      have hsplit : b - l' + l = b + (l - l') := by omega
      rw [hsplit, Nat.add_mod_left, Nat.mod_eq_of_lt (by omega)]
    rw [hmod, if_neg (by omega)]
    omega

-- What is left over after a subtraction gives the minuend back when it is added again.
theorem value_sub (hl : l < b) (hl' : l' < b) {d : Nat}
    (hd : (d + h' + if l < (b - l' + l) % b then 1 else 0) % b = h) :
    (value b d ((b - l' + l) % b) + value b h' l') % (b * b) = value b h l := by
  have hsum := low_borrow hl hl'
  have hwide : value b d ((b - l' + l) % b) + value b h' l' =
      value b (d + h' + if l < (b - l' + l) % b then 1 else 0) l := by
    rw [value, value, value]
    calc d * b + (b - l' + l) % b + (h' * b + l')
        = d * b + h' * b + ((b - l' + l) % b + l') := by ring
      _ = (d + h' + if l < (b - l' + l) % b then 1 else 0) * b + l := by rw [hsum]; ring
  rw [hwide, ← value_mod hl, hd]

theorem leftpad_concat {A : Type} (n : Nat) (fill : A) (xs : List A) (x : A) :
    (xs ++ [x]).leftpad (n + 1) fill = xs.leftpad n fill ++ [x] := by
  simp [List.leftpad]

theorem toDigits_step (hb : 1 < b) {q r : Nat} (hq : 0 < q) (hr : r < b) :
    Nat.toDigits b (b * q + r) = Nat.toDigits b q ++ [r.digitChar] := by
  rw [← Nat.toDigits_append_toDigits hb hq hr, Nat.toDigits_of_lt_base hr]

theorem leftpad_toDigits (hb : 1 < b) (k : Nat) {q r : Nat} (hr : r < b) :
    (Nat.toDigits b (b * q + r)).leftpad (k + 2) '0' =
      (Nat.toDigits b q).leftpad (k + 1) '0' ++ [r.digitChar] := by
  rcases Nat.eq_zero_or_pos q with rfl | hq
  · rw [Nat.mul_zero, Nat.zero_add, Nat.toDigits_of_lt_base hr, Nat.toDigits_zero]
    simp [List.leftpad, ← List.replicate_succ']
  · rw [toDigits_step hb hq hr, leftpad_concat]

-- Digits below a word are padded to its full width once there are digits above it.
theorem toDigits_split (hb : 1 < b) (hh : 0 < h) (k : Nat) (hl : l < b ^ (k + 1)) :
    Nat.toDigits b (h * b ^ (k + 1) + l) =
      Nat.toDigits b h ++ (Nat.toDigits b l).leftpad (k + 1) '0' := by
  induction k generalizing l with
  | zero =>
      rw [Nat.zero_add, Nat.pow_one] at hl ⊢
      rw [Nat.mul_comm h b, toDigits_step hb hh hl, Nat.toDigits_of_lt_base hl]
      rfl
  | succ k ih =>
      have hr : l % b < b := Nat.mod_lt l (by omega)
      have hq : l / b < b ^ (k + 1) := by
        rw [Nat.div_lt_iff_lt_mul (by omega), ← Nat.pow_succ]
        exact hl
      have hpos : 0 < h * b ^ (k + 1) + l / b := by
        have hpow : 0 < h * b ^ (k + 1) := Nat.mul_pos hh (Nat.pow_pos (by omega))
        exact Nat.add_pos_left hpow _
      have hsplit : h * b ^ (k + 1 + 1) + l = b * (h * b ^ (k + 1) + l / b) + l % b := by
        rw [Nat.pow_succ b (k + 1), Nat.mul_add, Nat.add_assoc, Nat.div_add_mod]
        ring
      have hlow : l = b * (l / b) + l % b := (Nat.div_add_mod l b).symm
      rw [hsplit, toDigits_step hb hpos hr, ih hq, List.append_assoc, ← leftpad_toDigits hb k hr,
        ← hlow]

def readDigits (b : Nat) (digit : Char → Nat) (cs : List Char) : Nat :=
  cs.foldl (fun n c => b * n + digit c) 0

theorem readDigits_toDigits (hb : 1 < b) {digit : Char → Nat}
    (hdigit : ∀ d < b, digit d.digitChar = d) (n : Nat) :
    readDigits b digit (Nat.toDigits b n) = n := by
  induction n using Nat.strongRecOn with
  | ind n ih =>
      rw [Nat.toDigits_eq_if hb]
      split_ifs with hn
      · simp [readDigits, hdigit n hn]
      · have hlt : n / b < n := Nat.div_lt_self (by omega) hb
        have hr : n % b < b := Nat.mod_lt n (by omega)
        rw [readDigits, List.foldl_append, ← readDigits, ih _ hlt, List.foldl_cons, List.foldl_nil,
          hdigit _ hr, Nat.div_add_mod]

end TwoWords
