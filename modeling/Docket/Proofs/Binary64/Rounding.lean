import Docket.Binary64.Nearest
import Docket.Binary64.Shortest
import Mathlib.Algebra.Order.Field.Power
import Mathlib.Algebra.Order.Ring.Rat
import Mathlib.Tactic.FieldSimp
import Mathlib.Tactic.Linarith
import Mathlib.Tactic.Positivity
import Mathlib.Tactic.Ring

/-!
# Rounding to the nearest double

Around every finite double lies an interval of the numbers that are read as that double; its ends belong to it
if the mantissa is even. The power that is chosen for a number in the interval is that of the double, or one less
if the number lies below a power of two, and the quotient is then rounded to the mantissa.

* `Binary64.Near`: the interval of a double.
* `divEven_eq`, `Binary64.scaled_eq`: a quotient near a natural number is rounded to it.
* `Binary64.powerOf_eq`: the power of a quotient.
* **`Binary64.ofRatio_eq`**, **`Binary64.ofDecimal_eq`**: what lies in the interval of a double is read as it.
-/

namespace Docket

/-! ## Quotients -/

theorem zpow_mul_toNat {b : ℕ} (hb : 0 < b) (p : ℤ) : (b : ℚ) ^ p * b ^ (-p).toNat = b ^ p.toNat := by
  have hne : (b : ℚ) ≠ 0 := Nat.cast_ne_zero.2 (Nat.ne_of_gt hb)
  rw [← zpow_natCast, ← zpow_natCast, ← zpow_add₀ hne]
  congr 1
  omega

theorem divEven_eq {n d m : ℕ} (hd : 0 < d) (hlow : 2 * m * d ≤ 2 * n + d) (hhigh : 2 * n ≤ 2 * m * d + d)
    (hodd : m % 2 = 0 ∨ 2 * m * d < 2 * n + d ∧ 2 * n < 2 * m * d + d) : divEven n d = m := by
  have hn : n = n / d * d + n % d := by rw [Nat.mul_comm, Nat.div_add_mod]
  have hr : n % d < d := Nat.mod_lt n hd
  unfold divEven
  dsimp only
  generalize n / d = q at *
  generalize n % d = r at *
  have hle : q ≤ m := by
    by_contra hlt
    have hmul := Nat.mul_le_mul_right d (Nat.succ_le_of_lt (Nat.lt_of_not_le hlt))
    rw [Nat.succ_mul] at hmul
    rw [Nat.mul_assoc] at hhigh
    omega
  have hge : m ≤ q + 1 := by
    by_contra hlt
    have hmul := Nat.mul_le_mul_right d (Nat.succ_le_of_lt (Nat.lt_of_not_le hlt))
    rw [Nat.succ_mul, Nat.succ_mul] at hmul
    rw [Nat.mul_assoc] at hlow
    omega
  rw [Nat.mul_assoc] at hlow hhigh hodd
  obtain rfl | rfl : m = q ∨ m = q + 1 := by omega
  · split
    · rfl
    · split <;> omega
  · have hmul : (q + 1) * d = q * d + d := Nat.succ_mul q d
    split
    · omega
    · split <;> omega

namespace Binary64

section Units

variable {n d : ℕ} (hd : 0 < d) (p : ℤ)

include hd

theorem exists_unit (n : ℕ) : ∃ c : ℚ, 0 < c ∧ (∀ a : ℚ, a * (d * Nat.pow 2 p.toNat : ℕ) = a * 2 ^ p * c) ∧
    ((n * Nat.pow 2 (-p).toNat : ℕ) : ℚ) = n / d * c := by
  have hpower : (2 : ℚ) ^ p * 2 ^ (-p).toNat = 2 ^ p.toNat := by exact_mod_cast zpow_mul_toNat (b := 2) (by decide) p
  have hd' : (0 : ℚ) < d := Nat.cast_pos.2 hd
  refine ⟨d * 2 ^ (-p).toNat, by positivity, fun a => ?_, ?_⟩
  · push_cast
    rw [Nat.pow_eq, Nat.cast_pow, Nat.cast_ofNat, ← hpower]
    ring
  · push_cast
    rw [Nat.pow_eq, Nat.cast_pow, Nat.cast_ofNat]
    field_simp

theorem mul_zpow_le_div_iff {a : ℚ} :
    a * 2 ^ p ≤ n / d ↔ a * (d * Nat.pow 2 p.toNat : ℕ) ≤ (n * Nat.pow 2 (-p).toNat : ℕ) := by
  obtain ⟨c, hc, hleft, hright⟩ := exists_unit hd p n
  rw [hleft, hright, mul_le_mul_iff_left₀ hc]

theorem div_le_mul_zpow_iff {a : ℚ} :
    (n / d : ℚ) ≤ a * 2 ^ p ↔ (n * Nat.pow 2 (-p).toNat : ℕ) ≤ a * (d * Nat.pow 2 p.toNat : ℕ) := by
  obtain ⟨c, hc, hleft, hright⟩ := exists_unit hd p n
  rw [hleft, hright, mul_le_mul_iff_left₀ hc]

end Units

/-- A quotient near a natural number is rounded to it; one that is half-way, to an even one. -/
theorem scaled_eq {n d m : ℕ} {p : ℤ} (hd : 0 < d) (hlow : (m - 1 / 2 : ℚ) * 2 ^ p ≤ n / d)
    (hhigh : (n / d : ℚ) ≤ (m + 1 / 2) * 2 ^ p)
    (hodd : m % 2 = 0 ∨ (m - 1 / 2 : ℚ) * 2 ^ p < n / d ∧ (n / d : ℚ) < (m + 1 / 2) * 2 ^ p) :
    scaled n d p = m := by
  rw [mul_zpow_le_div_iff hd p] at hlow
  rw [div_le_mul_zpow_iff hd p] at hhigh
  rw [← not_le, ← not_le, mul_zpow_le_div_iff hd p, div_le_mul_zpow_iff hd p, not_le, not_le] at hodd
  unfold scaled
  have hunit : 0 < d * Nat.pow 2 p.toNat := Nat.mul_pos hd (Nat.pow_pos (by decide))
  generalize n * Nat.pow 2 (-p).toNat = n' at *
  generalize d * Nat.pow 2 p.toNat = d' at *
  refine divEven_eq hunit ?_ ?_ ?_
  · have h : (2 * m * d' : ℚ) ≤ 2 * n' + d' := by linarith
    exact_mod_cast h
  · have h : (2 * n' : ℚ) ≤ 2 * m * d' + d' := by linarith
    exact_mod_cast h
  · refine hodd.imp_right fun ⟨hlow, hhigh⟩ => ⟨?_, ?_⟩
    · have h : (2 * m * d' : ℚ) < 2 * n' + d' := by linarith
      exact_mod_cast h
    · have h : (2 * n' : ℚ) < 2 * m * d' + d' := by linarith
      exact_mod_cast h

/-! ## The power -/

theorem cast_hiddenBit : (hiddenBit : ℚ) = 2 ^ (52 : ℤ) := by norm_num [hiddenBit]

/-- A quotient lies between two powers that are four apart. -/
theorem div_between {n d : ℕ} (hn : n ≠ 0) (hd : d ≠ 0) :
    (2 : ℚ) ^ ((n.log2 : ℤ) - d.log2 - 1) < n / d ∧ (n / d : ℚ) < 2 ^ ((n.log2 : ℤ) - d.log2 + 1) := by
  have hnlow : (2 : ℚ) ^ n.log2 ≤ n := by exact_mod_cast Nat.log2_self_le hn
  have hnhigh : (n : ℚ) < 2 ^ (n.log2 + 1) := by exact_mod_cast Nat.lt_log2_self (n := n)
  have hdlow : (2 : ℚ) ^ d.log2 ≤ d := by exact_mod_cast Nat.log2_self_le hd
  have hdhigh : (d : ℚ) < 2 ^ (d.log2 + 1) := by exact_mod_cast Nat.lt_log2_self (n := d)
  have hdpos : (0 : ℚ) < d := by positivity
  constructor
  · have hsplit : (2 : ℚ) ^ ((n.log2 : ℤ) - d.log2 - 1) = 2 ^ n.log2 / 2 ^ (d.log2 + 1) := by
      rw [sub_sub, zpow_sub₀ two_ne_zero]
      norm_cast
    rw [hsplit, div_lt_div_iff₀ (by positivity) hdpos]
    exact mul_lt_mul' hnlow hdhigh hdpos.le (by positivity)
  · have hsplit : (2 : ℚ) ^ ((n.log2 : ℤ) - d.log2 + 1) = 2 ^ (n.log2 + 1) / 2 ^ d.log2 := by
      rw [sub_add_eq_add_sub, zpow_sub₀ two_ne_zero]
      norm_cast
    rw [hsplit, div_lt_div_iff₀ hdpos (by positivity)]
    exact mul_lt_mul hnhigh hdlow (by positivity) (by positivity)

/-- The power of a quotient is the one at which it has a mantissa of fifty-three bits, or the least one. -/
theorem powerOf_eq {n d : ℕ} {p : ℤ} (hn : n ≠ 0) (hd : d ≠ 0) (hmin : -1074 ≤ p)
    (hhigh : (n / d : ℚ) < (2 * hiddenBit : ℕ) * 2 ^ p) (hlow : p = -1074 ∨ (hiddenBit : ℚ) * 2 ^ p ≤ n / d) :
    powerOf n d = p := by
  obtain ⟨hbelow, habove⟩ := div_between hn hd
  have hge : (n.log2 : ℤ) - d.log2 - 53 ≤ p := by
    have hpow : ((2 * hiddenBit : ℕ) : ℚ) * 2 ^ p = 2 ^ (53 + p) := by
      rw [zpow_add₀ two_ne_zero, Nat.cast_mul, cast_hiddenBit]
      norm_num
    rw [hpow] at hhigh
    have hlt := (zpow_lt_zpow_iff_right₀ one_lt_two).1 (hbelow.trans hhigh)
    omega
  have hle : p = -1074 ∨ p ≤ (n.log2 : ℤ) - d.log2 - 52 := by
    refine hlow.imp_right fun hlow => ?_
    have hpow : (hiddenBit : ℚ) * 2 ^ p = 2 ^ (52 + p) := by rw [zpow_add₀ two_ne_zero, cast_hiddenBit]
    rw [hpow] at hlow
    have hlt := (zpow_lt_zpow_iff_right₀ one_lt_two).1 (hlow.trans_lt habove)
    omega
  unfold powerOf
  dsimp only
  generalize hstart : max (-1074) ((n.log2 : ℤ) - d.log2 - 53) = start
  have hfits : n * Nat.pow 2 (-start).toNat < d * Nat.pow 2 start.toNat * (2 * hiddenBit) ↔
      (n / d : ℚ) < (2 * hiddenBit : ℕ) * 2 ^ start := by
    rw [← not_le, ← not_le, mul_zpow_le_div_iff (Nat.pos_of_ne_zero hd) start, Nat.mul_comm _ (2 * hiddenBit)]
    exact_mod_cast Iff.rfl
  obtain rfl | rfl : start = p ∨ p = start + 1 := by omega
  · rw [if_pos (hfits.2 hhigh)]
  · rw [if_neg]
    rw [hfits, not_lt]
    have hmin : start + 1 ≠ -1074 := by omega
    refine le_trans (le_of_eq ?_) (hlow.resolve_left hmin)
    rw [zpow_add_one₀ two_ne_zero]
    push_cast
    ring

/-! ## Parts -/

variable {x : Binary64}

theorem power_cases (x : Binary64) : x.power = -1074 ∨ hiddenBit ≤ x.mantissa := by
  unfold power mantissa
  split
  · exact .inl rfl
  · exact .inr (Nat.le_add_right _ _)

theorem le_power (x : Binary64) : -1074 ≤ x.power := by
  unfold power
  split <;> omega

theorem power_le (h : x.IsFinite) : x.power ≤ 971 := by
  unfold IsFinite at h
  unfold power
  split <;> omega

theorem mantissa_lt (x : Binary64) : x.mantissa < 2 * hiddenBit := by
  have hfraction := x.fraction.isLt
  unfold mantissa
  split <;> omega

theorem ofParts_mantissa (h : x.IsFinite) (negative : Bool) :
    ofParts negative x.mantissa x.power = { x with negative } := by
  obtain ⟨sign, ⟨e, he⟩, ⟨f, hf⟩⟩ := x
  unfold IsFinite at h
  dsimp only at h
  unfold ofParts mantissa power
  dsimp only
  by_cases hzero : e = 0
  · subst hzero
    rw [if_pos rfl, if_pos hf]
    exact congrArg (Binary64.mk negative 0) (Fin.ext (Nat.mod_eq_of_lt hf))
  · have hexponent : ((e : ℤ) - 1075 + 1075).toNat = e := by omega
    have hle : (e : ℤ) - 1075 ≤ 971 := by omega
    have hfraction : hiddenBit + f - hiddenBit = f := by omega
    rw [if_neg hzero, if_neg hzero, if_neg (Nat.not_lt.2 (Nat.le_add_right _ _)), if_pos hle, hexponent, hfraction]
    exact congrArg₂ (Binary64.mk negative) (Fin.ext (Nat.mod_eq_of_lt he)) (Fin.ext (Nat.mod_eq_of_lt hf))

/-! ## The interval -/

/-- A number lies in the interval of those that are read as the magnitude of a double. -/
def Near (x : Binary64) (v : ℚ) : Prop :=
  if x.mantissa % 2 = 0 then x.lowerEnd * 2 ^ (x.power - 2) ≤ v ∧ v ≤ x.upperEnd * 2 ^ (x.power - 2)
  else x.lowerEnd * 2 ^ (x.power - 2) < v ∧ v < x.upperEnd * 2 ^ (x.power - 2)

theorem mul_quarter (a : ℚ) (p : ℤ) : a * 2 ^ (p - 2) = a / 4 * 2 ^ p := by
  rw [zpow_sub₀ two_ne_zero]
  norm_num
  ring

theorem Near.bounds {v : ℚ} (h : x.Near v) :
    x.lowerEnd / 4 * 2 ^ x.power ≤ v ∧ v ≤ x.upperEnd / 4 * 2 ^ x.power := by
  unfold Near at h
  rw [mul_quarter, mul_quarter] at h
  split at h
  · exact h
  · exact ⟨h.1.le, h.2.le⟩

theorem Near.strict {v : ℚ} (h : x.Near v) : x.mantissa % 2 = 0 ∨
    x.lowerEnd / 4 * 2 ^ x.power < v ∧ v < x.upperEnd / 4 * 2 ^ x.power := by
  unfold Near at h
  rw [mul_quarter, mul_quarter] at h
  split at h
  · next heven => exact .inl heven
  · exact .inr h

theorem cast_upperEnd (x : Binary64) : (x.upperEnd / 4 : ℚ) = x.mantissa + 1 / 2 := by
  unfold upperEnd quarters
  push_cast
  ring

theorem le_cast_lowerEnd (x : Binary64) : (x.mantissa - 1 / 2 : ℚ) ≤ x.lowerEnd / 4 := by
  have hle : 4 * x.mantissa ≤ x.lowerEnd + 2 := by
    unfold lowerEnd quarters
    split <;> omega
  have hle : (4 * x.mantissa : ℚ) ≤ x.lowerEnd + 2 := by exact_mod_cast hle
  linarith

/-- The interval is half as wide below a power of two. -/
theorem lowerEnd_of_least (h : x.mantissa = hiddenBit) (hpower : x.power ≠ -1074) :
    x.lowerEnd = 4 * hiddenBit - 1 := by
  unfold mantissa at h
  unfold power at hpower
  have hfraction := x.fraction.isLt
  split at hpower
  · exact absurd rfl hpower
  · next hexponent =>
    rw [if_neg hexponent] at h
    unfold lowerEnd quarters mantissa
    rw [if_neg hexponent, h, if_pos (by omega)]

/-- Below a power of two the power is one less, and the quotient is rounded up to the power of two. -/
theorem powerOf_and_scaled_below {n d : ℕ} (hn : n ≠ 0) (hd : d ≠ 0) {p : ℤ} (hp : -1074 < p)
    (hlow : (hiddenBit - 1 / 4 : ℚ) * 2 ^ p ≤ n / d) (hhigh : (n / d : ℚ) < hiddenBit * 2 ^ p) :
    powerOf n d = p - 1 ∧ scaled n d (p - 1) = 2 * hiddenBit := by
  have hhalf : (2 : ℚ) ^ p = 2 * 2 ^ (p - 1) := by
    rw [zpow_sub_one₀ two_ne_zero]
    ring
  have hpow : (0 : ℚ) < 2 ^ (p - 1) := by positivity
  rw [hhalf] at hlow hhigh
  constructor
  · refine powerOf_eq hn hd (by omega) ?_ (.inr ?_)
    · push_cast
      linarith
    · linarith
  · refine scaled_eq (Nat.pos_of_ne_zero hd) ?_ ?_ (.inl (by decide))
    · push_cast
      linarith
    · push_cast
      linarith

/-- Only a power of two has a number of its interval below the numbers with its power. -/
theorem mantissa_of_below {v : ℚ} (h : x.Near v) (hpower : x.power ≠ -1074) (hbelow : v < hiddenBit * 2 ^ x.power) :
    x.mantissa = hiddenBit := by
  have hpow : (0 : ℚ) < 2 ^ x.power := by positivity
  have hlower := mul_le_mul_of_nonneg_right x.le_cast_lowerEnd hpow.le
  have hlt := lt_of_mul_lt_mul_right ((hlower.trans h.bounds.1).trans_lt hbelow) hpow.le
  have hlt : (x.mantissa : ℚ) < (hiddenBit + 1 : ℕ) := by
    push_cast
    linarith
  refine Nat.le_antisymm (Nat.le_of_lt_succ ?_) (x.power_cases.resolve_left hpower)
  exact_mod_cast hlt

/-- Any other number of the interval has the power of the double and is rounded to its mantissa. -/
theorem powerOf_and_scaled {n d : ℕ} (hn : n ≠ 0) (hd : d ≠ 0) (h : x.Near (n / d))
    (hpower : x.power = -1074 ∨ (hiddenBit : ℚ) * 2 ^ x.power ≤ n / d) :
    powerOf n d = x.power ∧ scaled n d x.power = x.mantissa := by
  have hpow : (0 : ℚ) < 2 ^ x.power := by positivity
  obtain ⟨hlow, hhigh⟩ := h.bounds
  have hstrict := h.strict
  rw [cast_upperEnd] at hhigh hstrict
  have hlower := mul_le_mul_of_nonneg_right x.le_cast_lowerEnd hpow.le
  have hmantissa : (x.mantissa : ℚ) + 1 ≤ (2 * hiddenBit : ℕ) := by exact_mod_cast x.mantissa_lt
  constructor
  · refine powerOf_eq hn hd x.le_power ?_ hpower
    exact hhigh.trans_lt (mul_lt_mul_of_pos_right (lt_of_lt_of_le (by linarith) hmantissa) hpow)
  · refine scaled_eq (Nat.pos_of_ne_zero hd) (hlower.trans hlow) hhigh (hstrict.imp_right fun hstrict => ?_)
    exact ⟨hlower.trans_lt hstrict.1, hstrict.2⟩

/-- **A quotient in the interval of a double is read as that double.** -/
theorem ofRatio_eq (hfinite : x.IsFinite) {n d : ℕ} (hn : n ≠ 0) (hd : d ≠ 0)
    (h : x.Near (n / d)) (negative : Bool) : ofRatio negative n d = { x with negative } := by
  have hparts := ofParts_mantissa hfinite negative
  unfold ofRatio
  by_cases hbelow : x.power ≠ -1074 ∧ (n / d : ℚ) < hiddenBit * 2 ^ x.power
  · obtain ⟨hpower, hbelow⟩ := hbelow
    have hmantissa := mantissa_of_below h hpower hbelow
    have hmin := x.le_power
    have hlow : (hiddenBit - 1 / 4 : ℚ) * 2 ^ x.power ≤ n / d := by
      have hend : (x.lowerEnd / 4 : ℚ) = hiddenBit - 1 / 4 := by
        rw [lowerEnd_of_least hmantissa hpower]
        norm_num
      rw [← hend]
      exact h.bounds.1
    obtain ⟨hpowerOf, hscaled⟩ := powerOf_and_scaled_below hn hd (by omega) hlow hbelow
    rw [hmantissa] at hparts
    simp only [hn, hpowerOf, hscaled, if_true, if_false, sub_add_cancel]
    exact hparts
  · rw [not_and_or, not_not, not_lt] at hbelow
    obtain ⟨hpowerOf, hscaled⟩ := powerOf_and_scaled hn hd h hbelow
    have hne : x.mantissa ≠ 2 * hiddenBit := Nat.ne_of_lt x.mantissa_lt
    simp only [hn, hpowerOf, hscaled, hne, if_false]
    exact hparts

/-! ## Decimals -/

theorem digits_between {n : ℕ} (hn : n ≠ 0) :
    10 ^ ((Nat.toDigits 10 n).length - 1) ≤ n ∧ n < 10 ^ (Nat.toDigits 10 n).length := by
  have hpos : 0 < (Nat.toDigits 10 n).length := Nat.length_toDigits_pos
  refine ⟨?_, (Nat.length_toDigits_le_iff (by decide) hpos).1 (Nat.le_refl _)⟩
  by_cases hone : (Nat.toDigits 10 n).length = 1
  · rw [hone]
    exact Nat.one_le_iff_ne_zero.2 hn
  · rw [← Nat.not_lt, ← Nat.length_toDigits_le_iff (by decide) (by omega)]
    omega

theorem two_pow_le_ten_pow : 2 ^ 1024 ≤ 10 ^ 310 ∧ 2 ^ 1075 ≤ 10 ^ 331 := by decide +kernel

theorem Near.le_of_ne_zero {v : ℚ} (h : x.Near v) (hx : x.mantissa ≠ 0) : (2 : ℚ) ^ (-1075 : ℤ) ≤ v := by
  have hone : (1 : ℚ) ≤ x.mantissa := by exact_mod_cast Nat.one_le_iff_ne_zero.2 hx
  have hend : (1 / 2 : ℚ) ≤ x.lowerEnd / 4 := le_trans (by linarith) x.le_cast_lowerEnd
  calc (2 : ℚ) ^ (-1075 : ℤ) = 1 / 2 * 2 ^ (-1074 : ℤ) := by
        rw [show (-1075 : ℤ) = -1074 - 1 from rfl, zpow_sub_one₀ two_ne_zero]
        ring
    _ ≤ 1 / 2 * 2 ^ x.power :=
        mul_le_mul_of_nonneg_left (zpow_le_zpow_right₀ one_le_two x.le_power) (by norm_num)
    _ ≤ x.lowerEnd / 4 * 2 ^ x.power := mul_le_mul_of_nonneg_right hend (by positivity)
    _ ≤ v := h.bounds.1

theorem Near.lt_of_isFinite {v : ℚ} (h : x.Near v) (hfinite : x.IsFinite) : v < 2 ^ (1024 : ℤ) := by
  have hmantissa : (x.mantissa : ℚ) + 1 ≤ (2 * hiddenBit : ℕ) := by exact_mod_cast x.mantissa_lt
  have hend : (x.upperEnd / 4 : ℚ) < (2 * hiddenBit : ℕ) := by
    rw [cast_upperEnd]
    exact lt_of_lt_of_le (by linarith) hmantissa
  calc v ≤ x.upperEnd / 4 * 2 ^ x.power := h.bounds.2
    _ < (2 * hiddenBit : ℕ) * 2 ^ x.power := mul_lt_mul_of_pos_right hend (by positivity)
    _ ≤ (2 * hiddenBit : ℕ) * 2 ^ (971 : ℤ) :=
        mul_le_mul_of_nonneg_left (zpow_le_zpow_right₀ one_le_two (power_le hfinite)) (Nat.cast_nonneg _)
    _ = 2 ^ (1024 : ℤ) := by
        rw [Nat.cast_mul, cast_hiddenBit, Nat.cast_ofNat, ← zpow_one_add₀ two_ne_zero, ← zpow_add₀ two_ne_zero]
        rfl

/-- The number of digits alone tells that a number is too large. -/
theorem size_le {digits : ℕ} (hdigits : digits ≠ 0) {scale : ℤ} (h : (digits * 10 ^ scale : ℚ) < 2 ^ (1024 : ℤ)) :
    ((Nat.toDigits 10 digits).length : ℤ) + scale ≤ 310 := by
  have hleast := (digits_between hdigits).1
  have hlength : 0 < (Nat.toDigits 10 digits).length := Nat.length_toDigits_pos
  generalize (Nat.toDigits 10 digits).length = length at *
  by_contra hlarge
  have hle : (10 : ℚ) ^ (310 : ℤ) ≤ digits * 10 ^ scale := by
    calc (10 : ℚ) ^ (310 : ℤ) ≤ 10 ^ ((length - 1 : ℕ) + scale : ℤ) :=
          zpow_le_zpow_right₀ (by norm_num) (by omega)
      _ = (10 ^ (length - 1) : ℕ) * 10 ^ scale := by
          rw [zpow_add₀ (by norm_num), zpow_natCast]
          norm_cast
      _ ≤ digits * 10 ^ scale := mul_le_mul_of_nonneg_right (by exact_mod_cast hleast) (by positivity)
  have hrange : (2 : ℚ) ^ (1024 : ℤ) ≤ 10 ^ (310 : ℤ) := by exact_mod_cast two_pow_le_ten_pow.1
  exact absurd (hle.trans_lt h) (not_lt.2 hrange)

/-- The number of digits alone tells that a number is too small. -/
theorem le_size {digits : ℕ} (hdigits : digits ≠ 0) {scale : ℤ} (h : (2 : ℚ) ^ (-1075 : ℤ) ≤ digits * 10 ^ scale) :
    -330 ≤ ((Nat.toDigits 10 digits).length : ℤ) + scale := by
  have hmost := (digits_between hdigits).2
  generalize (Nat.toDigits 10 digits).length = length at *
  by_contra hsmall
  have hlt : (digits * 10 ^ scale : ℚ) < 10 ^ (-331 : ℤ) := by
    calc (digits * 10 ^ scale : ℚ) < (10 ^ length : ℕ) * 10 ^ scale :=
          mul_lt_mul_of_pos_right (by exact_mod_cast hmost) (by positivity)
      _ = 10 ^ ((length : ℤ) + scale) := by
          rw [zpow_add₀ (by norm_num), zpow_natCast]
          norm_cast
      _ ≤ 10 ^ (-331 : ℤ) := zpow_le_zpow_right₀ (by norm_num) (by omega)
  have hrange : (10 : ℚ) ^ (-331 : ℤ) ≤ 2 ^ (-1075 : ℤ) := by
    rw [zpow_neg, zpow_neg, inv_le_inv₀ (by positivity) (by positivity)]
    exact_mod_cast two_pow_le_ten_pow.2
  exact absurd (h.trans_lt hlt) (not_lt.2 hrange)

theorem decimal_eq_div (digits : ℕ) (scale : ℤ) : (digits * 10 ^ scale : ℚ) =
    (digits * Nat.pow 10 scale.toNat : ℕ) / (Nat.pow 10 (-scale).toNat : ℕ) := by
  have hpower : (10 : ℚ) ^ scale * 10 ^ (-scale).toNat = 10 ^ scale.toNat := by
    exact_mod_cast zpow_mul_toNat (b := 10) (by decide) scale
  have hunit : ((Nat.pow 10 (-scale).toNat : ℕ) : ℚ) ≠ 0 :=
    Nat.cast_ne_zero.2 (Nat.pos_iff_ne_zero.1 (Nat.pow_pos (by decide)))
  rw [eq_div_iff hunit, Nat.cast_mul, Nat.pow_eq, Nat.pow_eq, Nat.cast_pow, Nat.cast_pow, Nat.cast_ofNat, ← hpower,
    mul_assoc]

/-- **A decimal in the interval of a double is read as that double.** -/
theorem ofDecimal_eq (hfinite : x.IsFinite) (hx : x.mantissa ≠ 0) {digits : ℕ} {scale : ℤ}
    (h : x.Near (digits * 10 ^ scale)) (negative : Bool) : ofDecimal negative digits scale = { x with negative } := by
  have hlow := h.le_of_ne_zero hx
  have hdigits : digits ≠ 0 := by
    rintro rfl
    rw [Nat.cast_zero, zero_mul] at hlow
    exact absurd hlow (not_le.2 (by positivity))
  have hlarge := not_lt.2 (size_le hdigits (h.lt_of_isFinite hfinite))
  have hsmall := not_lt.2 (le_size hdigits hlow)
  have hunit (n : ℕ) : Nat.pow 10 n ≠ 0 := Nat.pos_iff_ne_zero.1 (Nat.pow_pos (by decide))
  rw [decimal_eq_div] at h
  unfold ofDecimal
  simp only [hdigits, hlarge, hsmall, if_false]
  exact ofRatio_eq hfinite (Nat.mul_ne_zero hdigits (hunit _)) (hunit _) h negative

end Binary64

end Docket
