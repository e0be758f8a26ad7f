import Docket.Proofs.Binary64.Rounding
import Mathlib.Algebra.Order.Floor.Ring
import Mathlib.Data.Rat.Floor

/-!
# Whole doubles

A finite double stands for a rational number, and it is whole if this number has no fractional part. The doubles that
are not whole are the NaNs, the infinities and those with a fractional part.

* `Binary64.toRat`: the number that a finite double stands for.
* `Binary64.fract_toRat_eq_zero_iff`: divisibility of the mantissa is a matter of this number.
* **`Binary64.not_isWhole_iff`**: the doubles that are not whole.
-/

namespace Docket.Binary64

/-- The number that a finite double stands for. -/
def toRat (x : Binary64) : ℚ :=
  if x.negative then -(x.mantissa * 2 ^ x.power) else x.mantissa * 2 ^ x.power

/-- A multiple of a power of two is an integer if the multiple absorbs what is negative about the power. -/
theorem exists_intCast_eq_iff (m : ℕ) (p : ℤ) : (∃ z : ℤ, (z : ℚ) = m * 2 ^ p) ↔ Nat.pow 2 (-p).toNat ∣ m := by
  have hpower : (2 : ℚ) ^ p * 2 ^ (-p).toNat = 2 ^ p.toNat := by
    have := zpow_mul_toNat Nat.two_pos p
    rwa [Nat.cast_ofNat] at this
  constructor
  · rintro ⟨z, hz⟩
    obtain hp | hp := le_or_gt 0 p
    · have hk : (-p).toNat = 0 := by omega
      rw [hk]
      exact one_dvd m
    · have hk : p.toNat = 0 := by omega
      rw [hk, pow_zero] at hpower
      have hm : (m : ℚ) = z * 2 ^ (-p).toNat := by rw [hz, mul_assoc, hpower, mul_one]
      have hm : (m : ℤ) = z * 2 ^ (-p).toNat := by exact_mod_cast hm
      have hdvd : ((2 ^ (-p).toNat : ℕ) : ℤ) ∣ m := ⟨z, by rw [hm, mul_comm, Nat.cast_pow, Nat.cast_ofNat]⟩
      exact Int.natCast_dvd_natCast.1 hdvd
  · rintro ⟨c, rfl⟩
    refine ⟨c * 2 ^ p.toNat, ?_⟩
    push_cast
    rw [← hpower, Nat.pow_eq, Nat.cast_pow, Nat.cast_ofNat]
    ring

variable {x : Binary64}

theorem fract_toRat_eq_zero_iff : Int.fract x.toRat = 0 ↔ Nat.pow 2 (-x.power).toNat ∣ x.mantissa := by
  rw [← exists_intCast_eq_iff, Int.fract_eq_zero_iff, Set.mem_range, toRat]
  split
  · constructor
    · rintro ⟨z, hz⟩
      exact ⟨-z, by rw [Int.cast_neg, hz, neg_neg]⟩
    · rintro ⟨z, hz⟩
      exact ⟨-z, by rw [Int.cast_neg, hz]⟩
  · rfl

theorem isWhole_iff : x.IsWhole ↔ x.IsFinite ∧ Int.fract x.toRat = 0 :=
  and_congr_right fun _ => fract_toRat_eq_zero_iff.symm

theorem not_isFinite_iff : ¬ x.IsFinite ↔ x.IsNaN ∨ ∃ negative, x = infinity negative := by
  obtain ⟨negative, e, f⟩ := x
  have he := e.isLt
  constructor
  · intro h
    have hlast : e = 2047 := Fin.ext (Nat.le_antisymm (Nat.le_of_lt_succ he) (Nat.le_of_not_lt h))
    by_cases hf : f = 0
    · exact .inr ⟨negative, by rw [hlast, hf, infinity]⟩
    · exact .inl ⟨congrArg Fin.val hlast, fun hzero => hf (Fin.ext hzero)⟩
  · rintro (h | ⟨s, h⟩)
    · exact fun hfinite => Nat.ne_of_lt hfinite h.1
    · rw [h]
      exact not_isFinite_infinity s

/-- **A double that is not whole is a NaN, an infinity, or it has a fractional part.** -/
theorem not_isWhole_iff : ¬ x.IsWhole ↔
    x.IsNaN ∨ (∃ negative, x = infinity negative) ∨ (x.IsFinite ∧ Int.fract x.toRat ≠ 0) := by
  rw [isWhole_iff, not_and_or, not_isFinite_iff, or_assoc]
  by_cases hfinite : x.IsFinite
  · simp [hfinite]
  · obtain hnan | hinfinite := not_isFinite_iff.1 hfinite
    · simp [hnan]
    · simp [hinfinite]

end Docket.Binary64
