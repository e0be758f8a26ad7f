import Docket.Proofs.Binary64.Search

/-!
# Numbers are read back

The decimal that is printed for a double lies in the interval of the double, and every decimal there is read as
the double. Integers are exact, so every number is read back from its text.

* `Binary64.ofDecimal_shortest`: the shortest decimal of a double is read as the double.
* **`Json.number?_numeral`**: every number is read back from its text.
-/

namespace Docket

/-! ## Doubles -/

namespace Binary64

variable {x : Binary64}

theorem eq_zero_of_mantissa (hx : x.mantissa = 0) : x = zero x.negative := by
  obtain ⟨negative, exponent, fraction⟩ := x
  unfold mantissa at hx
  dsimp only at hx
  split at hx
  · next hexponent =>
    have hexponent : exponent = 0 := Fin.ext hexponent
    have hfraction : fraction = 0 := Fin.ext hx
    rw [hexponent, hfraction]
    rfl
  · omega

/-- **The shortest decimal reads back**, also with zeros written at its end. -/
theorem ofDecimal_shortest (hfinite : x.IsFinite) (tie : Tie) (zeros : ℕ) :
    ofDecimal x.negative ((x.shortest tie).digits * 10 ^ zeros) ((x.shortest tie).scale - zeros) = x := by
  by_cases hx : x.mantissa = 0
  · rw [shortest, if_pos hx, ofDecimal, if_pos (Nat.zero_mul _)]
    exact (eq_zero_of_mantissa hx).symm
  · have hvalue : (((x.shortest tie).digits * 10 ^ zeros : ℕ) : ℚ) * 10 ^ ((x.shortest tie).scale - zeros) =
        (x.shortest tie).value := by
      have hzeros : (10 : ℚ) ^ zeros ≠ 0 := by positivity
      rw [Decimal.value, Nat.cast_mul, Nat.cast_pow, Nat.cast_ofNat, zpow_sub₀ (by norm_num), zpow_natCast]
      field_simp
    have hnear : x.Near (((x.shortest tie).digits * 10 ^ zeros : ℕ) * 10 ^ ((x.shortest tie).scale - zeros)) := by
      rw [hvalue]
      exact holds_iff.1 (holds_shortest tie hfinite hx)
    exact ofDecimal_eq hfinite hx hnear x.negative

end Binary64

namespace Json

theorem number?_of_writes {x : Binary64} (h : x.IsFinite) {tie : Tie} {n : Numeral} (hsign : n.negative = x.negative)
    (hwrites : n.Writes (x.shortest tie)) : n.number? = some (.float x h) := by
  obtain ⟨hintegral, zeros, hdigits, hscale⟩ := hwrites
  have hx : Binary64.ofDecimal n.negative n.coefficient n.scale = x := by
    rw [hsign, hdigits, hscale]
    exact x.ofDecimal_shortest h tie zeros
  rw [Numeral.number?, hintegral, if_neg (by simp), Numeral.float?]
  simp only [hx, h, dite_true]

theorem number?_numeral_float {x : Binary64} (h : x.IsFinite) :
    (Number.float x h).numeral.number? = some (.float x h) := by
  obtain ⟨n, hn, hsign, hwrites⟩ := exists_ofChars?_render_float h
  rw [Number.numeral, hn]
  exact number?_of_writes h hsign hwrites

theorem number?_numeral_integer (n : ℤ) (h : InRange n) :
    (Number.integer n h).numeral.number? = some (.integer n h) := by
  have hwritten : ¬ (decide (n < 0) = true ∧ n.natAbs = 0) := by
    rw [decide_eq_true_iff]
    omega
  have hvalue : (if decide (n < 0) = true then -(n.natAbs : ℤ) else n.natAbs) = n := by
    split
    · next hn =>
      rw [decide_eq_true_iff] at hn
      omega
    · next hn =>
      rw [decide_eq_true_iff] at hn
      omega
  rw [numeral_integer, Numeral.number?, if_pos ⟨rfl, hwritten⟩]
  simp only [hvalue, h, dite_true]

/-- **Every number is read back from its text.** -/
theorem number?_numeral : (n : Number) → n.numeral.number? = some n
  | .integer n h => number?_numeral_integer n h
  | .float _ h => number?_numeral_float h

end Json

end Docket
