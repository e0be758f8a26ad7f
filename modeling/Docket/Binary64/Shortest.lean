import Docket.Binary64

/-!
# The shortest decimal that reads back

Every real number in a small interval around a finite double reads back as that double; its end points do
exactly when the mantissa is even. The shortest decimal is the first point of the interval met when the
decimal grids are tried from coarse to fine, and of two points on one grid the one nearer to the double.

* `Decimal`: `digits * 10 ^ scale`.
* `Binary64.Holds`: a decimal lies in the interval of a double.
* `Binary64.shortest`: the decimal found by the search.
-/

namespace Docket

/-- The number `digits * 10 ^ scale`. -/
structure Decimal where
  digits : Nat
  scale : Int
deriving DecidableEq, Inhabited

/-- Which neighbour is taken when two are equally near. -/
inductive Tie where
  | even
  | up
deriving DecidableEq

namespace Binary64

/-- The double in quarters of its last place. -/
def quarters (x : Binary64) : Nat := 4 * x.mantissa

/-- The upper end of the interval, in quarters of the last place. -/
def upperEnd (x : Binary64) : Nat := x.quarters + 2

/-- The lower end of the interval. Below a power of two the gap is half as wide. -/
def lowerEnd (x : Binary64) : Nat :=
  if x.fraction.val = 0 ∧ 1 < x.exponent.val then x.quarters - 1 else x.quarters - 2

/-- `a` quarters of the last place of `x`, measured in the common unit of `x` and a grid of the scale. -/
def measure (x : Binary64) (scale : Int) (a : Nat) : Nat :=
  a * Nat.pow 2 (x.power - 2).toNat * Nat.pow 10 (-scale).toNat

/-- One point of the grid of the scale, in the same unit. -/
def gridStep (x : Binary64) (scale : Int) : Nat :=
  Nat.pow 10 scale.toNat * Nat.pow 2 (2 - x.power).toNat

/-- The decimal lies in the interval of numbers that read back as the magnitude of `x`. -/
def Holds (x : Binary64) (d : Decimal) : Prop :=
  let point := d.digits * x.gridStep d.scale
  let low := x.measure d.scale x.lowerEnd
  let high := x.measure d.scale x.upperEnd
  if x.mantissa % 2 = 0 then low ≤ point ∧ point ≤ high else low < point ∧ point < high

instance (x : Binary64) (d : Decimal) : Decidable (x.Holds d) := by unfold Holds; infer_instance

/-- The neighbour of `x` on the grid of the scale that lies in the interval, the nearer of two. -/
def onGrid (tie : Tie) (x : Binary64) (scale : Int) : Option Decimal :=
  let value := x.measure scale x.quarters
  let step := x.gridStep scale
  let below : Decimal := ⟨value / step, scale⟩
  let above : Decimal := ⟨value / step + 1, scale⟩
  let rest := 2 * (value % step)
  match decide (x.Holds below), decide (x.Holds above) with
  | true, true =>
    if rest < step then some below
    else if step < rest then some above
    else match tie with
      | .even => if below.digits % 2 = 0 then some below else some above
      | .up => some above
  | true, false => some below
  | false, true => some above
  | false, false => none

/-- A scale whose grid has no point between zero and the magnitude of `x`. -/
def coarsest (x : Binary64) : Int :=
  ((x.mantissa.log2 : Int) + 1 + x.power) * 30103 / 100000 + 1

/-- The shortest decimal that reads back as the magnitude of a finite `x`. -/
def shortest (tie : Tie) (x : Binary64) : Decimal :=
  if x.mantissa = 0 then ⟨0, 0⟩
  else
    ((List.range 22).findSome? fun (i : Nat) => x.onGrid tie (x.coarsest - i)).getD
      ⟨x.measure x.power x.quarters, x.power - 2⟩

end Binary64

end Docket
