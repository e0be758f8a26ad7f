/-!
# Double-precision numbers

A number is its three interchange fields: sign, biased exponent, fraction. A finite number stands for
`± mantissa * 2 ^ power`, and everything below is decided in exact arithmetic on that pair.

* `Binary64.mantissa`, `Binary64.power`: the value of a finite number.
* `Binary64.IsFinite`: neither infinite nor a NaN.
* `Binary64.IsWhole`: finite without a fractional part.
* `Binary64.numEq`: equality as numbers, where a NaN differs from itself and `0.0` equals `-0.0`.
-/

namespace Docket

/-- The hidden bit of a mantissa: two to the power of fifty-two. -/
abbrev Binary64.hiddenBit : Nat := 4503599627370496

/-- A double: sign, exponent field, fraction field. -/
structure Binary64 where
  negative : Bool
  exponent : Fin 2048
  fraction : Fin Binary64.hiddenBit
deriving DecidableEq, Inhabited

namespace Binary64

/-- Zero of the given sign. -/
def zero (negative : Bool) : Binary64 := ⟨negative, 0, 0⟩

/-- Infinity of the given sign. -/
def infinity (negative : Bool) : Binary64 := ⟨negative, 2047, 0⟩

/-- The quiet NaN. -/
def nan : Binary64 := ⟨false, 2047, ⟨2251799813685248, by decide⟩⟩

/-! ## Classes -/

/-- Neither infinite nor a NaN. -/
def IsFinite (x : Binary64) : Prop := x.exponent.val < 2047

instance (x : Binary64) : Decidable x.IsFinite := by unfold IsFinite; infer_instance

/-- Not a number. -/
def IsNaN (x : Binary64) : Prop := x.exponent.val = 2047 ∧ x.fraction.val ≠ 0

instance (x : Binary64) : Decidable x.IsNaN := by unfold IsNaN; infer_instance

/-- A zero of either sign. -/
def IsZero (x : Binary64) : Prop := x.exponent.val = 0 ∧ x.fraction.val = 0

instance (x : Binary64) : Decidable x.IsZero := by unfold IsZero; infer_instance

/-! ## The value of a finite number -/

/-- The integer factor of the magnitude. Numbers with exponent field zero have no hidden bit. -/
def mantissa (x : Binary64) : Nat :=
  if x.exponent.val = 0 then x.fraction.val else hiddenBit + x.fraction.val

/-- The power of two of the magnitude. -/
def power (x : Binary64) : Int :=
  if x.exponent.val = 0 then -1074 else (x.exponent.val : Int) - 1075

/-- Finite without a fractional part: a negative power is absorbed by the mantissa. -/
def IsWhole (x : Binary64) : Prop :=
  x.IsFinite ∧ Nat.pow 2 (-x.power).toNat ∣ x.mantissa

instance (x : Binary64) : Decidable x.IsWhole := by unfold IsWhole; infer_instance

/-- Equality as numbers. -/
def numEq (x y : Binary64) : Bool :=
  !decide x.IsNaN && !decide y.IsNaN && (x = y || (decide x.IsZero && decide y.IsZero))

/-- The number of the given sign whose magnitude is `m * 2 ^ p`, for `m < 2 ^ 53` and `-1074 ≤ p`, where
`m < 2 ^ 52` only if `p = -1074`. Magnitudes past the largest finite number become infinite. -/
def ofParts (negative : Bool) (m : Nat) (p : Int) : Binary64 :=
  if m < hiddenBit then ⟨negative, 0, Fin.ofNat _ m⟩
  else if p ≤ 971 then ⟨negative, Fin.ofNat _ (p + 1075).toNat, Fin.ofNat _ (m - hiddenBit)⟩
  else infinity negative

theorem not_isFinite_infinity (s : Bool) : ¬ (infinity s).IsFinite := by decide +revert

theorem IsWhole.isFinite {x : Binary64} (h : x.IsWhole) : x.IsFinite := h.1

end Binary64

end Docket
