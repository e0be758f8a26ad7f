import Docket.Binary64

/-!
# The nearest double

Reading a decimal rounds to the nearest double, a tie going to the even mantissa. The quotient is exact,
so the answer is the correctly rounded one for every number of digits.

* `divEven`: a quotient rounded to the nearest natural number, ties to even.
* `Binary64.ofRatio`: the double nearest to a quotient.
* `Binary64.ofDecimal`: the double nearest to `± digits * 10 ^ scale`.
-/

namespace Docket

/-- `n / d` rounded to the nearest natural number; halves go to the even neighbour. -/
def divEven (n d : Nat) : Nat :=
  let q := n / d
  let r := n % d
  if 2 * r < d then q
  else if d < 2 * r then q + 1
  else q + q % 2

namespace Binary64

/-- `n / (d * 2 ^ p)` rounded to the nearest natural number, ties to even. -/
def scaled (n d : Nat) (p : Int) : Nat :=
  divEven (n * Nat.pow 2 (-p).toNat) (d * Nat.pow 2 p.toNat)

/-- The power at which `n / d` has a mantissa of 53 bits, or the least power if that is larger. -/
def powerOf (n d : Nat) : Int :=
  let p := max (-1074) ((n.log2 : Int) - (d.log2 : Int) - 53)
  if n * Nat.pow 2 (-p).toNat < d * Nat.pow 2 p.toNat * (2 * hiddenBit) then p else p + 1

/-- The double nearest to `± n / d`. A magnitude that rounds past the largest finite number is infinite. -/
def ofRatio (negative : Bool) (n d : Nat) : Binary64 :=
  if n = 0 then zero negative
  else
    let p := powerOf n d
    let m := scaled n d p
    if m = 2 * hiddenBit then ofParts negative hiddenBit (p + 1) else ofParts negative m p

/-- The double nearest to `± digits * 10 ^ scale`. Magnitudes that are certainly out of range are settled
by their digit count, so that no huge power is formed. -/
def ofDecimal (negative : Bool) (digits : Nat) (scale : Int) : Binary64 :=
  if digits = 0 then zero negative
  else
    let size : Int := (Nat.toDigits 10 digits).length + scale
    if 310 < size then infinity negative
    else if size < -330 then zero negative
    else ofRatio negative (digits * Nat.pow 10 scale.toNat) (Nat.pow 10 (-scale).toNat)

end Binary64

end Docket
