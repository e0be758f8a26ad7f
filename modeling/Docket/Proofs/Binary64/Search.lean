import Docket.Proofs.Binary64.Rounding
import Docket.Proofs.Json.Numbers

/-!
# The search for the shortest decimal

The decimal that is printed for a double lies in the interval of that double: either the search has found it
there, and the search does not fail, since on the last grid it tries the points are closer to each other than the
ends of the interval are to the double.

* `Binary64.holds_iff`: a decimal lies in the interval.
* `Binary64.ten_zpow_le`: the estimate of the number of digits by a fraction.
* **`Binary64.holds_shortest`**: the shortest decimal lies in the interval.
-/

namespace Docket

/-- The number that a decimal stands for. -/
def Decimal.value (d : Decimal) : ℚ := d.digits * 10 ^ d.scale

namespace Binary64

variable {x : Binary64}

theorem exists_gridUnit (x : Binary64) (scale : ℤ) : ∃ c : ℚ, 0 < c ∧
    (∀ a : ℕ, (x.measure scale a : ℚ) = a * 2 ^ (x.power - 2) * c) ∧ (x.gridStep scale : ℚ) = 10 ^ scale * c := by
  have htwo : (2 : ℚ) ^ (x.power - 2) * 2 ^ (2 - x.power).toNat = 2 ^ (x.power - 2).toNat := by
    have hsplit := zpow_mul_toNat (b := 2) (by decide) (x.power - 2)
    rw [neg_sub] at hsplit
    exact_mod_cast hsplit
  have hten : (10 : ℚ) ^ scale * 10 ^ (-scale).toNat = 10 ^ scale.toNat := by
    exact_mod_cast zpow_mul_toNat (b := 10) (by decide) scale
  refine ⟨2 ^ (2 - x.power).toNat * 10 ^ (-scale).toNat, by positivity, fun a => ?_, ?_⟩
  · rw [measure, Nat.pow_eq, Nat.pow_eq, Nat.cast_mul, Nat.cast_mul, Nat.cast_pow, Nat.cast_pow, Nat.cast_ofNat,
      Nat.cast_ofNat, ← htwo]
    ring
  · rw [gridStep, Nat.pow_eq, Nat.pow_eq, Nat.cast_mul, Nat.cast_pow, Nat.cast_pow, Nat.cast_ofNat, Nat.cast_ofNat,
      ← hten]
    ring

theorem holds_iff {d : Decimal} : x.Holds d ↔ x.Near d.value := by
  obtain ⟨c, hc, hmeasure, hstep⟩ := x.exists_gridUnit d.scale
  have hpoint : ((d.digits * x.gridStep d.scale : ℕ) : ℚ) = d.value * c := by
    rw [Nat.cast_mul, hstep, Decimal.value, mul_assoc]
  unfold Holds Near
  dsimp only
  rw [← Nat.cast_le (α := ℚ), ← Nat.cast_le (α := ℚ), ← Nat.cast_lt (α := ℚ), ← Nat.cast_lt (α := ℚ), hmeasure,
    hmeasure, hpoint]
  simp only [mul_le_mul_iff_left₀ hc, mul_lt_mul_iff_left₀ hc]

/-! ## The last grid -/

theorem ten_pow_between : 2 ^ 100000 ≤ 10 ^ 30103 ∧ 10 ^ 30103 ≤ 2 ^ 100001 := by decide +kernel

/-- A power of `10 ^ 30103` is about that power of `2 ^ 100000`. -/
theorem ten_pow_zpow_le {k : ℤ} (hk : k ≤ 100000) : ((10 : ℚ) ^ 30103) ^ k ≤ 2 ^ (100000 * (k + 1)) := by
  obtain ⟨n, rfl | rfl⟩ := k.eq_nat_or_neg
  · have hle : (10 : ℚ) ^ 30103 ≤ 2 ^ 100001 := by exact_mod_cast ten_pow_between.2
    calc ((10 : ℚ) ^ 30103) ^ (n : ℤ) ≤ (2 ^ 100001) ^ (n : ℤ) := by
          rw [zpow_natCast, zpow_natCast]
          exact pow_le_pow_left₀ (by positivity) hle n
      _ = 2 ^ (100001 * n : ℤ) := by
          rw [zpow_mul, zpow_ofNat]
      _ ≤ 2 ^ (100000 * (n + 1) : ℤ) := zpow_le_zpow_right₀ one_le_two (by omega)
  · have hle : (2 : ℚ) ^ 100000 ≤ 10 ^ 30103 := by exact_mod_cast ten_pow_between.1
    calc ((10 : ℚ) ^ 30103) ^ (-(n : ℤ)) ≤ (2 ^ 100000) ^ (-(n : ℤ)) := by
          rw [zpow_neg, zpow_neg, zpow_natCast, zpow_natCast]
          exact inv_anti₀ (by positivity) (pow_le_pow_left₀ (by positivity) hle n)
      _ = 2 ^ (100000 * -(n : ℤ)) := by
          rw [zpow_mul, zpow_ofNat]
      _ ≤ 2 ^ (100000 * (-(n : ℤ) + 1)) := zpow_le_zpow_right₀ one_le_two (by omega)

/-- The logarithm of two is about `30103 / 100000`. -/
theorem ten_zpow_le {k : ℤ} (hk : k ≤ 100000) : (10 : ℚ) ^ (k * 30103 / 100000) ≤ 2 ^ (k + 1) := by
  refine (pow_le_pow_iff_left₀ (by positivity) (by positivity) (by decide : 100000 ≠ 0)).1 ?_
  calc ((10 : ℚ) ^ (k * 30103 / 100000)) ^ 100000 = 10 ^ (k * 30103 / 100000 * 100000) := by
        rw [zpow_mul, zpow_ofNat]
    _ ≤ 10 ^ (30103 * k) := zpow_le_zpow_right₀ (by norm_num) (by omega)
    _ = (10 ^ 30103) ^ k := by rw [zpow_mul, zpow_ofNat]
    _ ≤ 2 ^ (100000 * (k + 1)) := ten_pow_zpow_le hk
    _ = (2 ^ (k + 1)) ^ 100000 := by rw [mul_comm, zpow_mul, zpow_ofNat]

/-- On the last grid that is tried the points are no further from each other than a quarter of the last place. -/
theorem gridStep_le_measure (hfinite : x.IsFinite) (hx : x.mantissa ≠ 0) :
    x.gridStep (x.coarsest - 21) ≤ x.measure (x.coarsest - 21) 1 := by
  obtain ⟨c, hc, hmeasure, hstep⟩ := x.exists_gridUnit (x.coarsest - 21)
  have hlog : x.mantissa.log2 < 53 := (Nat.log2_lt hx).2 x.mantissa_lt
  have hpower := power_le hfinite
  have hscale : x.coarsest - 21 ≤ (x.power + 53) * 30103 / 100000 - 20 := by
    unfold coarsest
    omega
  have hquarter : (10 : ℚ) ^ (x.coarsest - 21) ≤ 2 ^ (x.power - 2) := by
    calc (10 : ℚ) ^ (x.coarsest - 21) ≤ 10 ^ ((x.power + 53) * 30103 / 100000 - 20) :=
          zpow_le_zpow_right₀ (by norm_num) hscale
      _ = 10 ^ ((x.power + 53) * 30103 / 100000) * 10 ^ (-20 : ℤ) := by
          rw [sub_eq_add_neg, zpow_add₀ (by norm_num)]
      _ ≤ 2 ^ (x.power + 53 + 1) * 2 ^ (-56 : ℤ) :=
          mul_le_mul (ten_zpow_le (by omega)) (by norm_num) (by positivity) (by positivity)
      _ = 2 ^ (x.power - 2) := by
          rw [← zpow_add₀ two_ne_zero]
          congr 1
          omega
  rw [← Nat.cast_le (α := ℚ), hmeasure, hstep, Nat.cast_one, one_mul]
  exact mul_le_mul_of_nonneg_right hquarter hc.le

/-! ## The search -/

theorem holds_below (hx : x.mantissa ≠ 0) {scale : ℤ} (h : x.gridStep scale ≤ x.measure scale 1) :
    x.Holds ⟨x.measure scale x.quarters / x.gridStep scale, scale⟩ := by
  have hstep : 0 < x.gridStep scale := Nat.mul_pos (Nat.pow_pos (by decide)) (Nat.pow_pos (by decide))
  have hsplit := Nat.div_add_mod' (x.measure scale x.quarters) (x.gridStep scale)
  have hrest := Nat.mod_lt (x.measure scale x.quarters) hstep
  have hmeasure : ∀ a : ℕ, x.measure scale a = a * x.measure scale 1 := fun a => by
    rw [measure, measure, one_mul, Nat.mul_assoc]
  have hlow : x.measure scale x.lowerEnd + x.measure scale 1 ≤ x.measure scale x.quarters := by
    have hend : x.lowerEnd + 1 ≤ x.quarters := by
      unfold lowerEnd quarters
      split <;> omega
    rw [hmeasure x.lowerEnd, hmeasure x.quarters, ← Nat.succ_mul]
    exact Nat.mul_le_mul_right _ hend
  have hhigh : x.measure scale x.quarters + x.measure scale 1 ≤ x.measure scale x.upperEnd := by
    rw [hmeasure x.quarters, hmeasure x.upperEnd, ← Nat.succ_mul]
    exact Nat.mul_le_mul_right _ (Nat.le_succ _)
  unfold Holds
  dsimp only
  split <;> constructor <;> omega

theorem isSome_onGrid {tie : Tie} {scale : ℤ}
    (h : x.Holds ⟨x.measure scale x.quarters / x.gridStep scale, scale⟩) : (x.onGrid tie scale).isSome := by
  unfold onGrid
  simp only [h, decide_true]
  cases decide (x.Holds ⟨x.measure scale x.quarters / x.gridStep scale + 1, scale⟩) with
  | false => rfl
  | true =>
    dsimp only
    split
    · rfl
    · split
      · rfl
      · cases tie with
        | up => rfl
        | even =>
          dsimp only
          split <;> rfl

/-- **The shortest decimal lies in the interval.** -/
theorem holds_shortest (tie : Tie) (hfinite : x.IsFinite) (hx : x.mantissa ≠ 0) : x.Holds (x.shortest tie) := by
  rw [shortest, if_neg hx]
  cases hfound : (List.range 22).findSome? fun (i : ℕ) => x.onGrid tie (x.coarsest - i) with
  | none =>
    have hlast : x.onGrid tie (x.coarsest - 21) = none := List.findSome?_eq_none_iff.1 hfound 21 (by decide)
    have hsome : (x.onGrid tie (x.coarsest - 21)).isSome :=
      isSome_onGrid (holds_below hx (gridStep_le_measure hfinite hx))
    rw [hlast] at hsome
    cases hsome
  | some d =>
    obtain ⟨i, -, hgrid⟩ := List.exists_of_findSome?_eq_some hfound
    exact holds_of_onGrid hgrid

end Binary64

end Docket
