import Mathlib.Algebra.Order.Ring.Nat
import Mathlib.Tactic.Ring

/-! # Little-endian numbers -/

namespace Irohsion

abbrev Bytes := List UInt8

/-- The low `width` bytes of a number, least significant first. -/
def littleEndian : (width value : Nat) → Bytes
  | 0, _ => []
  | width + 1, value => UInt8.ofNat (value % 256) :: littleEndian width (value / 256)

def ofLittleEndian : Bytes → Nat
  | [] => 0
  | byte :: rest => byte.toNat + 256 * ofLittleEndian rest

@[simp] theorem length_littleEndian : ∀ width value, (littleEndian width value).length = width
  | 0, _ => rfl
  | width + 1, value => congrArg (· + 1) (length_littleEndian width (value / 256))

theorem ofLittleEndian_littleEndian : ∀ width value,
    ofLittleEndian (littleEndian width value) = value % 256 ^ width
  | 0, value => by simp [littleEndian, ofLittleEndian, Nat.mod_one]
  | width + 1, value => by
      have low : (UInt8.ofNat (value % 256)).toNat = value % 256 := by
        rw [UInt8.toNat_ofNat']
        omega
      rw [littleEndian, ofLittleEndian, ofLittleEndian_littleEndian width, low,
        pow_succ', Nat.mod_mul]

theorem ofLittleEndian_littleEndian_of_lt {width value : Nat} (fits : value < 256 ^ width) :
    ofLittleEndian (littleEndian width value) = value := by
  rw [ofLittleEndian_littleEndian, Nat.mod_eq_of_lt fits]

theorem ofLittleEndian_lt : ∀ bytes : Bytes, ofLittleEndian bytes < 256 ^ bytes.length
  | [] => by simp [ofLittleEndian]
  | byte :: rest => by
      have low := byte.toNat_lt
      have high := ofLittleEndian_lt rest
      rw [ofLittleEndian, List.length_cons, pow_succ']
      omega

/-- Bytes are the digits of the number that they form. -/
theorem littleEndian_ofLittleEndian : ∀ bytes : Bytes,
    littleEndian bytes.length (ofLittleEndian bytes) = bytes
  | [] => rfl
  | byte :: rest => by
      have low := byte.toNat_lt
      have digit : (byte.toNat + 256 * ofLittleEndian rest) % 256 = byte.toNat := by omega
      have others : (byte.toNat + 256 * ofLittleEndian rest) / 256 = ofLittleEndian rest := by
        omega
      rw [List.length_cons, ofLittleEndian, littleEndian, digit, others,
        littleEndian_ofLittleEndian rest, UInt8.ofNat_toNat]

theorem littleEndian_ofLittleEndian_take {width : Nat} {bytes : Bytes}
    (enough : width ≤ bytes.length) :
    littleEndian width (ofLittleEndian (bytes.take width)) = bytes.take width := by
  have digits := littleEndian_ofLittleEndian (bytes.take width)
  rw [List.length_take_of_le enough] at digits
  exact digits

end Irohsion
