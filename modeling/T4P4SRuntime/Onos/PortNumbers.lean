import T4P4SRuntime.Library.BigEndian
import T4P4SRuntime.Onos.Interpreter

namespace Onos

variable {P T S B D : Type}

def Platform.number (platform : Platform P T S B D) (s : S) : Nat :=
  BigEndian.value (platform.asArray s)

-- What is documented of `ImmutableByteSequence`: `copyFrom` keeps the content, and `fit` trims zero
-- bits only.
structure Platform.Lawful (platform : Platform P T S B D) : Prop where
  copyFromLong : ∀ n, platform.number (platform.copyFromLong n) = n.toUInt64.toNat
  copyFromBuffer : ∀ b, platform.asArray (platform.copyFromBuffer b) = platform.contents b
  fit_ok : ∀ s width, 0 < width → platform.number s < 2 ^ width →
    ∃ fitted, platform.fit s width = .ok fitted ∧ platform.number fitted = platform.number s
  fit_error : ∀ s width, 0 < width → 2 ^ width ≤ platform.number s →
    ∃ message, platform.fit s width = .error message

def fitBytes (s : Bytes) (width : Nat) : Except String Bytes :=
  if BigEndian.value s < 2 ^ width then
    .ok (BigEndian.digits ((width + 7) / 8) (BigEndian.value s))
  else .error "cannot trim"

-- Ports by their numbers, with the logical numbers of ONOS.
def portNumbers (ports : List Int64) : Platform Int64 String Bytes Bytes Unit :=
  { isLogical := fun port => decide (port < 0 ∨ 4294967295 < port)
    toLong := id
    portEquals := fun a b => decide (a = b)
    controller := -3
    flood := -5
    portName := fun port => toString port.toInt
    typeName := id
    treatmentName := fun _ => "treatment"
    copyFromLong := fun n => BigEndian.digits 8 n.toUInt64.toNat
    copyFromBuffer := id
    fit := fitBytes
    asArray := id
    contents := id
    getPorts := fun _ => ports }

theorem fitBytes_value {s : Bytes} {width : Nat} (h : BigEndian.value s < 2 ^ width) :
    BigEndian.value (BigEndian.digits ((width + 7) / 8) (BigEndian.value s)) =
      BigEndian.value s := by
  apply BigEndian.value_digits
  have hbits : 256 ^ ((width + 7) / 8) = 2 ^ (8 * ((width + 7) / 8)) := by rw [pow_mul]; rfl
  rw [hbits]
  exact h.trans_le (Nat.pow_le_pow_right two_pos (by omega))

theorem portNumbers_lawful (ports : List Int64) : (portNumbers ports).Lawful where
  copyFromLong := fun n => BigEndian.value_digits n.toUInt64.toNat_lt
  copyFromBuffer := fun _ => rfl
  fit_ok := fun _ _ _ h => ⟨_, if_pos h, fitBytes_value h⟩
  fit_error := fun _ _ _ h => ⟨_, if_neg (Nat.not_lt.mpr h)⟩

end Onos
