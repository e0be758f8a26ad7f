import Docket.Value
import Docket.Json.Printer
import Docket.Json.Reader

/-!
# Values as JSON

A value turns into JSON and back. On the way out a double that is not finite becomes null and a repeated key
is merged; on the way in an integer is signed if it fits.

* `Value.toJson`, `Value.ofJson`: the two conversions.
* `Value.text`: a value as compact JSON text.
* `Value.ofText?`: the value of JSON text.
-/

namespace Docket.Value

/-- A number as JSON. -/
def Number.toJson : Number → Json
  | .int n => .ofInt64 n
  | .uint n => .ofUInt64 n
  | .float x => if h : x.IsFinite then .num (.float x h) else .null

/-- A JSON number as a number. -/
def Number.ofJson : Json.Number → Number
  | .integer n _ => if n < 9223372036854775808 then .int (Int64.ofInt n) else .uint (UInt64.ofNat n.toNat)
  | .float x _ => .float x

mutual

/-- A value as JSON. -/
def toJson : Value → Json
  | .null => .null
  | .bool b => .bool b
  | .num n => n.toJson
  | .str s => .str s
  | .list items => .arr (toJsonItems items)
  | .map entries => .obj (Json.merge (toJsonEntries entries))

/-- Items as JSON. -/
def toJsonItems : List Value → List Json
  | [] => []
  | v :: rest => toJson v :: toJsonItems rest

/-- Entries as JSON, not yet merged. -/
def toJsonEntries : List (String × Value) → List (String × Json)
  | [] => []
  | (k, v) :: rest => (k, toJson v) :: toJsonEntries rest

end

mutual

/-- A JSON value as a value. -/
def ofJson : Json → Value
  | .null => .null
  | .bool b => .bool b
  | .num n => .num (.ofJson n)
  | .str s => .str s
  | .arr items => .list (ofJsonItems items)
  | .obj entries => .map (ofJsonEntries entries)

/-- JSON items as items. -/
def ofJsonItems : List Json → List Value
  | [] => []
  | v :: rest => ofJson v :: ofJsonItems rest

/-- JSON entries as entries. -/
def ofJsonEntries : List (String × Json) → List (String × Value)
  | [] => []
  | (k, v) :: rest => (k, ofJson v) :: ofJsonEntries rest

end

/-- The compact JSON text of a value. -/
def text (v : Value) : String := v.toJson.text

/-- The value of JSON text. -/
def ofText? (s : String) : Option Value := (Json.ofText? s).map ofJson

end Docket.Value
