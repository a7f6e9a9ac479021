import Mathlib.Tactic

namespace BigEndian

def value (bytes : List UInt8) : Nat := bytes.foldl (fun n b => n * 256 + b.toNat) 0

def digits : Nat → Nat → List UInt8
  | 0, _ => []
  | n + 1, x => digits n (x / 256) ++ [UInt8.ofNat x]

-- A number that needs more than `n` bytes has no encoding in `n` bytes.
def encode (n x : Nat) : Option (List UInt8) := if x < 256 ^ n then some (digits n x) else none

@[simp] theorem value_nil : value [] = 0 := rfl

theorem value_concat (bytes : List UInt8) (b : UInt8) :
    value (bytes ++ [b]) = value bytes * 256 + b.toNat := by
  simp [value]

theorem value_append (bytes rest : List UInt8) :
    value (bytes ++ rest) = value bytes * 256 ^ rest.length + value rest := by
  induction rest using List.reverseRecOn with
  | nil => simp
  | append_singleton rest b ih =>
      rw [← List.append_assoc, value_concat, value_concat, ih, List.length_append,
        List.length_singleton, pow_succ]
      ring

theorem value_lt (bytes : List UInt8) : value bytes < 256 ^ bytes.length := by
  induction bytes using List.reverseRecOn with
  | nil => simp
  | append_singleton bytes b ih =>
      rw [value_concat, List.length_append, List.length_singleton, pow_succ]
      have hb := b.toNat_lt
      omega

theorem value_eq_zero_iff (bytes : List UInt8) : value bytes = 0 ↔ ∀ b ∈ bytes, b = 0 := by
  induction bytes using List.reverseRecOn with
  | nil => simp
  | append_singleton bytes b ih =>
      have hb : b.toNat = 0 ↔ b = 0 := by
        rw [← UInt8.toNat_inj]
        rfl
      rw [value_concat, Nat.add_eq_zero_iff, hb]
      constructor
      · rintro ⟨hv, rfl⟩ c hc
        rcases List.mem_append.mp hc with h | h
        · exact ih.mp (by omega) c h
        · simpa using h
      · intro h
        have hv := ih.mpr fun c hc => h c (List.mem_append_left _ hc)
        exact ⟨by omega, h b (by simp)⟩

@[simp] theorem length_digits (n x : Nat) : (digits n x).length = n := by
  induction n generalizing x with
  | zero => rfl
  | succ n ih => simp [digits, ih]

theorem value_digits {n x : Nat} (h : x < 256 ^ n) : value (digits n x) = x := by
  induction n generalizing x with
  | zero =>
      obtain rfl : x = 0 := by simpa using h
      rfl
  | succ n ih =>
      have hdiv : x / 256 < 256 ^ n := by
        rw [pow_succ] at h
        exact Nat.div_lt_of_lt_mul (by omega)
      have hb : (UInt8.ofNat x).toNat = x % 256 := by simp
      rw [digits, value_concat, ih hdiv, hb]
      omega

theorem digits_value (bytes : List UInt8) : digits bytes.length (value bytes) = bytes := by
  induction bytes using List.reverseRecOn with
  | nil => rfl
  | append_singleton bytes b ih =>
      have hb := b.toNat_lt
      have hdiv : (value bytes * 256 + b.toNat) / 256 = value bytes := by omega
      have hmod : UInt8.ofNat (value bytes * 256 + b.toNat) = b := by
        rw [← UInt8.toNat_inj]
        simp only [UInt8.toNat_ofNat']
        omega
      rw [List.length_append, List.length_singleton, digits, value_concat, hdiv, ih, hmod]

theorem encode_eq_some_iff {n x : Nat} {bytes : List UInt8} :
    encode n x = some bytes ↔ bytes.length = n ∧ value bytes = x := by
  rw [encode]
  constructor
  · intro h
    split at h
    · rename_i hx
      obtain rfl := Option.some.inj h
      exact ⟨length_digits n x, value_digits hx⟩
    · cases h
  · rintro ⟨rfl, rfl⟩
    rw [if_pos (value_lt bytes), digits_value]

-- The leading `n` bytes of a longer string have its number only when the string is all zeros.
theorem encode_value_take_iff (n : Nat) (bytes : List UInt8) :
    encode n (value bytes) = some (bytes.take n) ↔
      bytes.length = n ∨ (n < bytes.length ∧ ∀ b ∈ bytes, b = 0) := by
  rw [encode_eq_some_iff, List.length_take]
  constructor
  · rintro ⟨hlen, hval⟩
    rcases Nat.eq_or_lt_of_le (show n ≤ bytes.length by omega) with heq | hlt
    · exact Or.inl heq.symm
    · refine Or.inr ⟨hlt, ?_⟩
      have hsplit := value_append (bytes.take n) (bytes.drop n)
      rw [List.take_append_drop, hval, List.length_drop] at hsplit
      have hpow : 256 ≤ 256 ^ (bytes.length - n) :=
        Nat.le_self_pow (by omega) 256
      have hzero : value bytes = 0 := by
        by_contra hpos
        have hmul := Nat.mul_le_mul_left (value bytes) hpow
        omega
      exact (value_eq_zero_iff bytes).mp hzero
  · rintro (rfl | ⟨hlt, hzero⟩)
    · simp
    · refine ⟨by omega, ?_⟩
      rw [(value_eq_zero_iff bytes).mpr hzero, value_eq_zero_iff]
      exact fun b hb => hzero b (List.mem_of_mem_take hb)

end BigEndian
