/-!
# How content is held

* `Encoding`: as it is, or compressed. Nothing is written compressed yet.
* `Encoding.ordinal`, `Encoding.ofOrdinal?`: the number in stored rows.
-/

namespace Docket

/-- How content is held in its file. -/
inductive Encoding where
  | plain
  | gzip
deriving DecidableEq, Repr, Inhabited

namespace Encoding

/-- The number of an encoding. -/
def ordinal : Encoding → Nat
  | .plain => 0
  | .gzip => 1

/-- The encoding of a number. -/
def ofOrdinal? : Nat → Option Encoding
  | 0 => some .plain
  | 1 => some .gzip
  | _ => none

/-- The wording for a number that is no encoding. -/
def unknownMessage (n : Nat) : String := "unknown attachment encoding " ++ toString n

@[simp] theorem ofOrdinal?_ordinal (e : Encoding) : ofOrdinal? e.ordinal = some e := by cases e <;> rfl

end Encoding

end Docket
