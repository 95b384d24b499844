import Mathlib.Data.Nat.Digits.Defs
import Mathlib.Tactic.Common

/-
  Numbers as little-endian bytes of a fixed width.

  A number that does not fit is cut down to its low bytes.

  Main declarations:
    * `LittleEndian.bytes`
    * `LittleEndian.value`
    * `LittleEndian.value_bytes`
    * `LittleEndian.bytes_value`
-/

namespace LittleEndian

/- The low bytes of a number, the lowest first. -/
def bytes : Nat → Nat → List UInt8
| 0, _ => []
| width + 1, n => UInt8.ofNat n :: bytes width (n / 256)

/- The number of a list of bytes. -/
def value (bs : List UInt8) : Nat :=
  Nat.ofDigits 256 (bs.map UInt8.toNat)

@[simp] theorem length_bytes (width n : Nat) : (bytes width n).length = width := by
  induction width generalizing n with
  | zero => rfl
  | succ width ih => simp [bytes, ih]

theorem value_cons (b : UInt8) (bs : List UInt8) : value (b :: bs) = b.toNat + 256 * value bs := by
  simp [value, Nat.ofDigits_cons]

/- What is left of a number in the given width. -/
theorem value_bytes (width n : Nat) : value (bytes width n) = n % 256 ^ width := by
  induction width generalizing n with
  | zero => simp [bytes, value, Nat.mod_one]
  | succ width ih =>
    have hLow : (UInt8.ofNat n).toNat = n % 256 := UInt8.toNat_ofNat'
    rw [bytes, value_cons, ih, hLow, Nat.pow_succ', Nat.mod_mul]

/- Every list of bytes is that of its number. -/
theorem bytes_value (bs : List UInt8) : bytes bs.length (value bs) = bs := by
  induction bs with
  | nil => rfl
  | cons b bs ih =>
    have hByte : b.toNat < 256 := b.toNat_lt
    rw [List.length_cons, bytes, value_cons, Nat.add_mul_div_left _ _ (by omega),
      Nat.div_eq_of_lt hByte, Nat.zero_add, ih]
    congr 1
    apply UInt8.toNat_inj.mp
    rw [UInt8.toNat_ofNat']
    omega

theorem value_bytes_of_lt {width n : Nat} (hFits : n < 256 ^ width) :
    value (bytes width n) = n := by
  rw [value_bytes]
  exact Nat.mod_eq_of_lt hFits

end LittleEndian
