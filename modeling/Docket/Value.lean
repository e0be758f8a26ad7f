import Docket.Binary64.Layout

/-!
# Values of a selector

What a selector is written in: nested lists and maps over scalars. A map is a list of entries, keeps their
order and may repeat a key. Integers are kept exact, and signed and unsigned ones are told apart.

* `Value.Number.Fractional`: a number that is not an integer.
* `Value.single`, `Value.single?`: maps of one entry.
* `Value.fraction?`: the first fractional number at any depth.
* `Value.same`: equality, where numbers of different kinds differ and doubles are compared as numbers.
-/

namespace Docket

/-- A number in a value. -/
inductive Value.Number where
  | int (n : Int64)
  | uint (n : UInt64)
  | float (x : Binary64)
deriving DecidableEq

/-- A value. -/
inductive Value where
  | null
  | bool (b : Bool)
  | num (n : Value.Number)
  | str (s : String)
  | list (items : List Value)
  | map (entries : List (String × Value))
deriving Inhabited

namespace Value

namespace Number

/-- Not an integer: infinite, a NaN, or with a fractional part. -/
def Fractional : Number → Prop
  | .float x => ¬ x.IsWhole
  | _ => False

instance (n : Number) : Decidable n.Fractional := by
  cases n <;> unfold Fractional <;> infer_instance

/-- The number in decimal, at every size without an exponent. -/
def text : Number → String
  | .int n => toString n.toInt
  | .uint n => toString n.toNat
  | .float x => String.ofList (x.text .plain)

/-- Equality of numbers of one kind. -/
def same : Number → Number → Bool
  | .int m, .int n => m = n
  | .uint m, .uint n => m = n
  | .float x, .float y => x.numEq y
  | _, _ => false

/-- An unsigned integer: signed if it fits. -/
def ofUInt64 (n : UInt64) : Number :=
  if n.toNat < 9223372036854775808 then .int (Int64.ofInt n.toNat) else .uint n

end Number

/-- The map without entries. -/
def empty : Value := .map []

/-- The map of one entry. -/
def single (key : String) (v : Value) : Value := .map [(key, v)]

/-- The entry of a map that has exactly one. -/
def single? : Value → Option (String × Value)
  | .map [e] => some e
  | _ => none

/-- The entries of a map. -/
def entries? : Value → Option (List (String × Value))
  | .map entries => some entries
  | _ => none

/-- The items of a list. -/
def items? : Value → Option (List Value)
  | .list items => some items
  | _ => none

/-- The value of the first entry with the key. -/
def get? (v : Value) (key : String) : Option Value :=
  v.entries?.bind fun entries => (entries.find? (·.1 = key)).map (·.2)

/-- The name of the kind of a value. -/
def kind : Value → String
  | .null => "null"
  | .bool _ => "bool"
  | .num (.float _) => "float"
  | .num _ => "integer"
  | .str _ => "string"
  | .list _ => "list"
  | .map _ => "map"

@[simp] theorem single?_single (key : String) (v : Value) : (single key v).single? = some (key, v) := rfl

theorem eq_single_of_single? {v p : Value} {key : String} (h : v.single? = some (key, p)) :
    v = single key p := by
  unfold single? at h
  split at h
  · cases h; rfl
  · cases h

/-! ## Fractional numbers -/

mutual

/-- The first fractional number at any depth. -/
def fraction? : Value → Option Number
  | .num n => if n.Fractional then some n else none
  | .list items => fractionItems? items
  | .map entries => fractionEntries? entries
  | _ => none

/-- The first fractional number in items. -/
def fractionItems? : List Value → Option Number
  | [] => none
  | v :: rest => (fraction? v).or (fractionItems? rest)

/-- The first fractional number in entries. -/
def fractionEntries? : List (String × Value) → Option Number
  | [] => none
  | (_, v) :: rest => (fraction? v).or (fractionEntries? rest)

end

/-! ## Equality -/

mutual

/-- Equality of values. The order of entries counts. -/
def same : Value → Value → Bool
  | .null, .null => true
  | .bool a, .bool b => a = b
  | .num m, .num n => m.same n
  | .str s, .str t => s = t
  | .list vs, .list ws => sameItems vs ws
  | .map es, .map fs => sameEntries es fs
  | _, _ => false

/-- Equality of items. -/
def sameItems : List Value → List Value → Bool
  | [], [] => true
  | v :: vs, w :: ws => same v w && sameItems vs ws
  | _, _ => false

/-- Equality of entries. -/
def sameEntries : List (String × Value) → List (String × Value) → Bool
  | [], [] => true
  | (k, v) :: es, (l, w) :: fs => decide (k = l) && same v w && sameEntries es fs
  | _, _ => false

end

end Value

end Docket
