import Docket.Json.Literal

/-!
# Values of JSON text

Making a value of a literal is where text is refused that is well formed: lists and maps nested too deep,
units that do not pair up, numbers out of range. Entries with repeated keys are merged.

* `Json.Part.string?`: the string of quoted parts.
* `Json.Literal.json?`: the value of a literal under a bound on nesting.
* `Json.maxNesting`, `Json.parse?`: the value of a text.
-/

namespace Docket.Json

/-- How many lists and maps may stand inside one another. -/
def maxNesting : Nat := 127

namespace Part

/-- The first half of a pair. -/
def IsHigh (u : UInt16) : Prop := 0xd800 ≤ u.toNat ∧ u.toNat < 0xdc00

instance (u : UInt16) : Decidable (IsHigh u) := by unfold IsHigh; infer_instance

/-- The second half of a pair. -/
def IsLow (u : UInt16) : Prop := 0xdc00 ≤ u.toNat ∧ u.toNat < 0xe000

instance (u : UInt16) : Decidable (IsLow u) := by unfold IsLow; infer_instance

/-- The character of a pair. -/
def pair (high low : UInt16) : Char :=
  Char.ofNat (0x10000 + 0x400 * (high.toNat - 0xd800) + (low.toNat - 0xdc00))

/-- The characters of quoted parts. Half of a pair without the other half has none. -/
def chars? : List Part → Option (List Char)
  | [] => some []
  | .char c :: rest => (chars? rest).map (c :: ·)
  | .unit u :: rest =>
    if IsLow u then none
    else if IsHigh u then
      match rest with
      | .unit l :: rest => if IsLow l then (chars? rest).map (pair u l :: ·) else none
      | _ => none
    else (chars? rest).map (Char.ofNat u.toNat :: ·)

/-- The string of quoted parts. -/
def string? (parts : List Part) : Option String := (chars? parts).map String.ofList

end Part

namespace Literal

mutual

/-- The value of a literal in which at most `limit` lists and maps stand inside one another. -/
def json? (limit : Nat) : Literal → Option Json
  | .null => some .null
  | .bool b => some (.bool b)
  | .num n => n.number?.map .num
  | .str parts => (Part.string? parts).map .str
  | .arr items => if limit = 0 then none else (jsonItems? (limit - 1) items).map .arr
  | .obj entries =>
    if limit = 0 then none else (jsonEntries? (limit - 1) entries).map fun es => .obj (merge es)

/-- The values of items. -/
def jsonItems? (limit : Nat) : List Literal → Option (List Json)
  | [] => some []
  | v :: rest => do
    let v ← json? limit v
    let rest ← jsonItems? limit rest
    return v :: rest

/-- The values of entries, with their keys. -/
def jsonEntries? (limit : Nat) : List (List Part × Literal) → Option (List (String × Json))
  | [] => some []
  | (k, v) :: rest => do
    let k ← Part.string? k
    let v ← json? limit v
    let rest ← jsonEntries? limit rest
    return (k, v) :: rest

end

/-- The string that a literal is. -/
def string? : Literal → Option String
  | .str parts => Part.string? parts
  | _ => none

/-- The unsigned integer that a literal is. -/
def natural? : Literal → Option UInt64
  | .num n => n.natural?
  | _ => none

end Literal

/-- The value of a text. -/
def parse? (text : List Char) : Option Json := (Literal.parse? text).bind (·.json? maxNesting)

/-- The value of a string. -/
def ofText? (s : String) : Option Json := parse? s.toList

end Docket.Json
