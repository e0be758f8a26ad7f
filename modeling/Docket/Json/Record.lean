import Docket.Json.Reader

/-!
# Records in JSON text

A record is written as a map from its field names or as a list of its fields in order. Fields of a map may
come in any order; a field that is named twice is refused, a name that is no field is passed over and what it
holds is not looked at.

* `Json.Literal.fields?`: the literals of the named fields.
* `Json.Literal.member?`: a field that holds any value.
-/

namespace Docket.Json.Literal

/-- The entries with their keys as strings. -/
def keyed? : List (List Part × Literal) → Option (List (String × Literal))
  | [] => some []
  | (k, v) :: rest => do
    let k ← Part.string? k
    let rest ← keyed? rest
    return (k, v) :: rest

/-- At most one entry has the key. -/
def AtMostOnce (key : String) (entries : List (String × Literal)) : Prop :=
  (keys entries).count key ≤ 1

instance (key : String) (entries : List (String × Literal)) : Decidable (AtMostOnce key entries) := by
  unfold AtMostOnce; infer_instance

/-- The literals of the fields with these names. A list has to hold at least the first `least` of them, and
nothing more than all of them. -/
def fields? (names : List String) (least : Nat) : Literal → Option (List (Option Literal))
  | .arr items =>
    if least ≤ items.length ∧ items.length ≤ names.length then
      some (items.map some ++ List.replicate (names.length - items.length) none)
    else none
  | .obj entries => do
    let entries ← keyed? entries
    if ∀ name ∈ names, AtMostOnce name entries then some (names.map (lookup? · entries)) else none
  | _ => none

/-- The value of a field: the record itself is one level of nesting. -/
def member? (v : Literal) : Option Json := v.json? (maxNesting - 1)

end Docket.Json.Literal
