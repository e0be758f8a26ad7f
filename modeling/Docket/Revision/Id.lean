import Docket.Json.Printer
import Docket.Hex
import Docket.Sha256
import Docket.Bytes

/-!
# Revision identifiers

An identifier is a generation, counted from one along a chain of revisions, and a digest. The digest of a
derived identifier covers the identifier before it and the body, so it stands for the whole history.

* `RevisionId.parse?`, `RevisionId.text`: the written form, `generation-digest`.
* `RevisionId.derive`: the identifier that follows another one.
-/

namespace Docket

/-- The identifier of a revision. -/
structure RevisionId where
  generation : UInt64
  digest : String
deriving DecidableEq, Inhabited

namespace RevisionId

/-- The characters of the written form. -/
def chars (id : RevisionId) : List Char :=
  Nat.toDigits 10 id.generation.toNat ++ '-' :: id.digest.toList

/-- The written form. -/
def text (id : RevisionId) : String := String.ofList id.chars

/-- A generation in decimal, after an optional plus sign. -/
def generation? (text : List Char) : Option UInt64 :=
  let digits := if text.head? = some '+' then text.drop 1 else text
  let n := Nat.ofDigitChars 10 digits 0
  if digits ≠ [] ∧ digits.all Char.isDigit ∧ n < UInt64.size then some (UInt64.ofNat n) else none

/-- Reads a generation of at least one, the first dash and a digest that is not empty. -/
def ofChars? (text : List Char) : Option RevisionId :=
  let digest := (text.dropWhile (· ≠ '-')).drop 1
  match generation? (text.takeWhile (· ≠ '-')) with
  | some generation =>
    if generation = 0 ∨ '-' ∉ text ∨ digest = [] then none
    else some ⟨generation, String.ofList digest⟩
  | none => none

/-- The identifier of a written form. -/
def parse? (s : String) : Option RevisionId := ofChars? s.toList

/-- What the digest of a revision covers: the written form of the identifier before it, if there is one, and
the compact text of the body. -/
def material (parent : Option RevisionId) (body : Json) : Bytes :=
  (match parent with
    | some id => Text.bytes id.text
    | none => []) ++ Text.bytes body.text

/-- The generation after an identifier. -/
def nextGeneration : Option RevisionId → UInt64
  | some id => id.generation + 1
  | none => 1

/-- The identifier of a revision with the given body after another one, or of a first revision. -/
def derive (parent : Option RevisionId) (body : Json) : RevisionId where
  generation := nextGeneration parent
  digest := Hex.text ((Sha256.digest (material parent body)).take 16)

/-- The generation goes up by one as long as it has room. -/
theorem toNat_nextGeneration_some {id : RevisionId} (h : id.generation.toNat + 1 < UInt64.size) :
    (nextGeneration (some id)).toNat = id.generation.toNat + 1 := by
  rw [nextGeneration, UInt64.toNat_add, UInt64.toNat_one]
  exact Nat.mod_eq_of_lt h

end RevisionId

end Docket
