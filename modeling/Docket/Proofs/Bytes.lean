import Docket.Bytes
import Mathlib.Algebra.Order.Ring.Nat
import Mathlib.Tactic.Common

/-!
# The order of numbers and of their bytes

Digits of one size, the high ones first, are in the order of the number that they make. So words are in the order of
their eight bytes (**`Bytes.compare_bigEndian`**).

* `Bytes.compare_mul_add`: a number as high digits and a low one.
* `Bytes.low`, `Bytes.compare_low`: the low bytes of a number, however many.
* `Bytes.bigEndian_injective`: a word is determined by its bytes.
-/

namespace Docket.Bytes

theorem compare_byte (b c : UInt8) : compare b c = compare b.toNat c.toNat := by
  show compareOfLessAndEq b c = compareOfLessAndEq b.toNat c.toNat
  unfold compareOfLessAndEq
  simp only [UInt8.lt_iff_toNat_lt, ← UInt8.toNat_inj]

theorem compare_word (m n : UInt64) : compare m n = compare m.toNat n.toNat := by
  show compareOfLessAndEq m n = compareOfLessAndEq m.toNat n.toNat
  unfold compareOfLessAndEq
  simp only [UInt64.lt_iff_toNat_lt, ← UInt64.toNat_inj]

theorem compare_mul_add {w x y : Nat} (hx : x < w) (hy : y < w) (a b : Nat) :
    compare (w * a + x) (w * b + y) = (compare a b).then (compare x y) := by
  rcases Nat.lt_trichotomy a b with hab | rfl | hab
  · have hstep : w * a + w ≤ w * b := Nat.mul_le_mul_left w hab
    rw [Nat.compare_eq_lt.2 hab, Nat.compare_eq_lt.2 (by omega)]
    rfl
  · simp [Nat.compare_eq_ite_lt]
  · have hstep : w * b + w ≤ w * a := Nat.mul_le_mul_left w hab
    rw [Nat.compare_eq_gt.2 hab, Nat.compare_eq_gt.2 (by omega)]
    rfl

/-- The low bytes of a number, that many of them, the high byte first. -/
def low : Nat → Nat → Bytes
  | 0, _ => []
  | k + 1, n => UInt8.ofNat (n / 256 ^ k) :: low k n

theorem bigEndian_eq_low (n : Nat) : bigEndian n = low 8 n := by
  simp [bigEndian, low, List.range_succ, Nat.shiftRight_eq_div_pow]

theorem compare_low (k m n : Nat) : compare (low k m) (low k n) = compare (m % 256 ^ k) (n % 256 ^ k) := by
  induction k with
  | zero => simp [low, Nat.mod_one]
  | succ k ih =>
    -- the new byte stands before those of `ih`, so it is the high digit
    have hpos : 0 < 256 ^ k := Nat.pow_pos (by decide)
    have hsplit : ∀ x : Nat, x % 256 ^ (k + 1) = 256 ^ k * (x / 256 ^ k % 256) + x % 256 ^ k := fun x => by
      rw [Nat.pow_succ, Nat.mod_mul, Nat.add_comm]
    have hbyte : ∀ x : Nat, (UInt8.ofNat x).toNat = x % 256 := fun x => UInt8.toNat_ofNat'
    rw [low, low, List.compare_cons_cons, ih, compare_byte, hbyte, hbyte, hsplit, hsplit n,
      compare_mul_add (Nat.mod_lt m hpos) (Nat.mod_lt n hpos)]

/-- **Words are in the order of their bytes.** -/
theorem compare_bigEndian (m n : UInt64) : compare (bigEndian m.toNat) (bigEndian n.toNat) = compare m n := by
  rw [bigEndian_eq_low, bigEndian_eq_low, compare_low, compare_word]
  congr 1
  · exact Nat.mod_eq_of_lt m.toNat_lt
  · exact Nat.mod_eq_of_lt n.toNat_lt

theorem bigEndian_injective {m n : UInt64} (h : bigEndian m.toNat = bigEndian n.toNat) : m = n := by
  have heq : compare m n = .eq := by
    rw [← compare_bigEndian, h]
    exact Std.ReflCmp.compare_self
  exact Std.LawfulEqCmp.eq_of_compare heq

end Docket.Bytes
