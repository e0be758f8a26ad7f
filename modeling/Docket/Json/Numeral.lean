import Docket.Json
import Docket.Binary64.Nearest

/-!
# Numerals

A numeral is a sign, a coefficient and a power of ten, and remembers whether it was written as an integer.
Integers of at most sixty-four bits stay exact, every other numeral is the nearest double, and one that
rounds to infinity has no value. A negative zero is a double even when it is written as an integer.

* `Json.Numeral.ofChars?`: reading a numeral.
* `Json.Numeral.number?`: its number.
* `Json.Numeral.natural?`: its value as an unsigned integer.
-/

namespace Docket.Json

/-- The number `± coefficient * 10 ^ scale` as it was written. -/
structure Numeral where
  negative : Bool
  coefficient : Nat
  scale : Int
  /-- Written without a fraction and without an exponent. -/
  integral : Bool
deriving DecidableEq

namespace Numeral

/-- Digits from the start of a text, and what follows them. -/
def digits (text : List Char) : List Char × List Char :=
  (text.takeWhile Char.isDigit, text.dropWhile Char.isDigit)

/-- The number that digits stand for. -/
def ofDigits (ds : List Char) : Nat := Nat.ofDigitChars 10 ds 0

/-- The sign at the start of a text. -/
def sign : List Char → Bool × List Char
  | '-' :: rest => (true, rest)
  | text => (false, text)

/-- The digits of the integer part: a zero alone, or digits that do not start with a zero. -/
def whole? (text : List Char) : Option (List Char × List Char) :=
  let (ds, rest) := digits text
  if ds = [] ∨ (ds.head? = some '0' ∧ ds ≠ ['0']) then none else some (ds, rest)

/-- The digits after a decimal point, none if there is no point. -/
def fraction? : List Char → Option (List Char × List Char)
  | '.' :: text =>
    let (ds, rest) := digits text
    if ds = [] then none else some (ds, rest)
  | text => some ([], text)

/-- A signed run of digits to the end of the text. -/
def signed? (text : List Char) : Option Int :=
  let (negative, text) := match text with
    | '+' :: rest => (false, rest)
    | text => sign text
  let (ds, rest) := digits text
  if ds = [] ∨ rest ≠ [] then none
  else some (if negative then -(ofDigits ds : Int) else ofDigits ds)

/-- The exponent to the end of the text: none at the end, else a letter and a signed run of digits. -/
def exponent? : List Char → Option (Option Int)
  | [] => some none
  | c :: rest => if c = 'e' ∨ c = 'E' then (signed? rest).map some else none

/-- Reads a numeral that is the whole of the text. -/
def ofChars? (text : List Char) : Option Numeral := do
  let (negative, text) := sign text
  let (ds, text) ← whole? text
  let (fs, text) ← fraction? text
  let exponent ← exponent? text
  return {
    negative
    coefficient := ofDigits (ds ++ fs)
    scale := exponent.getD 0 - fs.length
    integral := fs = [] ∧ exponent = none }

/-- The nearest double, if it is finite. -/
def float? (n : Numeral) : Option Number :=
  let x := Binary64.ofDecimal n.negative n.coefficient n.scale
  if h : x.IsFinite then some (.float x h) else none

/-- The number of a numeral. -/
def number? (n : Numeral) : Option Number :=
  if n.integral ∧ ¬ (n.negative ∧ n.coefficient = 0) then
    let i : Int := if n.negative then -n.coefficient else n.coefficient
    if h : InRange i then some (.integer i h) else n.float?
  else n.float?

/-- The value of a numeral that is written as an integer without a sign and fits into sixty-four bits. -/
def natural? (n : Numeral) : Option UInt64 :=
  if n.integral ∧ ¬ n.negative ∧ n.coefficient < UInt64.size then some (UInt64.ofNat n.coefficient) else none

end Numeral

end Docket.Json
