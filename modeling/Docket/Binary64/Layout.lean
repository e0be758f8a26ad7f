import Docket.Binary64.Shortest

/-!
# The text of a double

One set of digits, two ways to lay them out. A `Layout` says where the positional form ends, whether a
whole number keeps a fraction digit, and which way ties between shortest decimals go.

* `Layout.wire`: the form of numbers in printed JSON.
* `Layout.plain`: positional at every size, with no fraction digit on whole numbers.
* `Binary64.text`: a double under a layout.
-/

namespace Docket

/-- How the digits of a number are laid out. -/
structure Layout where
  tie : Tie
  /-- The positional form is used when the decimal point stands at one of these places. -/
  positional : Int → Bool
  /-- Whole numbers end in `.0`. -/
  keepsFraction : Bool

namespace Layout

/-- Printed JSON: positional from `1e-5` up to below `1e16`, whole numbers end in `.0`. -/
def wire : Layout where
  tie := .even
  positional place := -4 ≤ place && place ≤ 16
  keepsFraction := true

/-- Positional at every size. -/
def plain : Layout where
  tie := .up
  positional _ := true
  keepsFraction := false

end Layout

namespace Decimal

/-- The decimal digits. -/
def numerals (d : Decimal) : List Char := Nat.toDigits 10 d.digits

/-- Where the decimal point stands, counted from the first digit. -/
def place (d : Decimal) : Int := d.numerals.length + d.scale

/-- Digits around a decimal point. -/
def positional (keepsFraction : Bool) (d : Decimal) : List Char :=
  let ds := d.numerals
  if d.place ≤ 0 then ['0', '.'] ++ List.replicate (-d.place).toNat '0' ++ ds
  else
    let n := d.place.toNat
    if ds.length ≤ n then
      ds ++ List.replicate (n - ds.length) '0' ++ (if keepsFraction then ['.', '0'] else [])
    else ds.take n ++ ['.'] ++ ds.drop n

/-- One digit before the point and a signed power of ten. -/
def scientific (d : Decimal) : List Char :=
  let ds := d.numerals
  let fraction := ds.drop 1
  let e := d.place - 1
  ds.take 1 ++ (if fraction = [] then [] else '.' :: fraction) ++
    ['e', if e < 0 then '-' else '+'] ++ Nat.toDigits 10 e.natAbs

end Decimal

namespace Binary64

/-- The magnitude of a finite double. -/
def magnitudeText (layout : Layout) (x : Binary64) : List Char :=
  let d := x.shortest layout.tie
  if layout.positional d.place then d.positional layout.keepsFraction else d.scientific

/-- A double under a layout. -/
def text (layout : Layout) (x : Binary64) : List Char :=
  if x.IsNaN then "NaN".toList
  else
    let sign := if x.negative then ['-'] else []
    sign ++ if x.IsFinite then x.magnitudeText layout else "inf".toList

end Binary64

end Docket
