/-!
# The words of the selector language

A key that starts with a dollar sign is an operator. Ten operators have a meaning: two junctions of clauses,
negation, six comparisons, and `$ne`, which is short for a negated `$eq`.

* `Selector.IsOperator`: a key that is an operator.
* `Selector.Junction`, `Selector.Comparison`, `Selector.Keyword`: the operators with a meaning.
* `Selector.Keyword.shorthand?`: what a negated shorthand denies.
* **`Selector.Keyword.ofText?_eq_some`**: an operator is its text and nothing else is.
-/

namespace Docket.Selector

/-- A key that is an operator and not the name of a field. -/
def IsOperator (key : String) : Prop := key.toList.head? = some '$'

instance (key : String) : Decidable (IsOperator key) := by unfold IsOperator; infer_instance

/-- How clauses are joined. -/
inductive Junction where
  | and
  | or
deriving DecidableEq, Repr

/-- How a field is compared with an operand. -/
inductive Comparison where
  | eq
  | lt
  | lte
  | gt
  | gte
  | present
deriving DecidableEq, Repr

/-- An operator with a meaning. -/
inductive Keyword where
  | junction (j : Junction)
  | not
  | ne
  | compare (c : Comparison)
deriving DecidableEq, Repr

/-! ## Texts -/

/-- The name of a junction. -/
def Junction.name : Junction → String
  | .and => "and"
  | .or => "or"

/-- The operator of a junction. -/
def Junction.text : Junction → String
  | .and => "$and"
  | .or => "$or"

/-- The junction of a name. -/
def Junction.ofName? (s : String) : Option Junction := [Junction.and, .or].find? (·.name = s)

/-- The junction of an operator. -/
def Junction.ofText? (s : String) : Option Junction := [Junction.and, .or].find? (·.text = s)

/-- The comparisons. -/
def Comparison.all : List Comparison := [.eq, .lt, .lte, .gt, .gte, .present]

/-- The name of a comparison. -/
def Comparison.name : Comparison → String
  | .eq => "eq"
  | .lt => "lt"
  | .lte => "lte"
  | .gt => "gt"
  | .gte => "gte"
  | .present => "exists"

/-- The operator of a comparison. -/
def Comparison.text : Comparison → String
  | .eq => "$eq"
  | .lt => "$lt"
  | .lte => "$lte"
  | .gt => "$gt"
  | .gte => "$gte"
  | .present => "$exists"

/-- The comparison of a name. -/
def Comparison.ofName? (s : String) : Option Comparison := all.find? (·.name = s)

/-- The comparison of an operator. -/
def Comparison.ofText? (s : String) : Option Comparison := all.find? (·.text = s)

namespace Keyword

/-- The text of an operator. -/
def text : Keyword → String
  | .junction j => j.text
  | .not => "$not"
  | .ne => "$ne"
  | .compare c => c.text

/-- The operator of a text. -/
def ofText? (s : String) : Option Keyword :=
  if s = "$not" then some .not
  else if s = "$ne" then some .ne
  else match Junction.ofText? s with
    | some j => some (.junction j)
    | none => (Comparison.ofText? s).map .compare

/-- What a negated shorthand denies. -/
def shorthand? : Keyword → Option Comparison
  | .ne => some .eq
  | _ => none

/-- An operator that stands directly under a field. -/
def OnField : Keyword → Prop
  | .junction _ => False
  | _ => True

instance (k : Keyword) : Decidable k.OnField := by cases k <;> unfold OnField <;> infer_instance

end Keyword

theorem Junction.ofText?_text (j : Junction) : Junction.ofText? j.text = some j := by
  cases j <;> rfl

theorem Junction.ofText?_eq_some {s : String} {j : Junction} :
    Junction.ofText? s = some j ↔ s = j.text := by
  refine ⟨fun h => ?_, fun h => h ▸ ofText?_text j⟩
  have h := List.find?_some h
  exact (by simpa using h : _ = s).symm

theorem Comparison.ofText?_text (c : Comparison) : Comparison.ofText? c.text = some c := by
  cases c <;> rfl

theorem Comparison.ofText?_eq_some {s : String} {c : Comparison} :
    Comparison.ofText? s = some c ↔ s = c.text := by
  refine ⟨fun h => ?_, fun h => h ▸ ofText?_text c⟩
  have h := List.find?_some h
  exact (by simpa using h : _ = s).symm

namespace Keyword

@[simp] theorem ofText?_text (k : Keyword) : ofText? k.text = some k := by
  cases k with
  | junction j => cases j <;> rfl
  | not => rfl
  | ne => rfl
  | compare c => cases c <;> rfl

theorem ofText?_eq_some {s : String} {k : Keyword} : ofText? s = some k ↔ s = k.text := by
  refine ⟨fun h => ?_, fun h => h ▸ ofText?_text k⟩
  unfold ofText? at h
  split at h
  · cases h; assumption
  · split at h
    · cases h; assumption
    · split at h
      · next hj => cases h; exact Junction.ofText?_eq_some.1 hj
      · simp only [Option.map_eq_some_iff] at h
        obtain ⟨c, hc, rfl⟩ := h
        exact Comparison.ofText?_eq_some.1 hc

theorem isOperator_text (k : Keyword) : IsOperator k.text := by
  cases k with
  | junction j => cases j <;> rfl
  | not => rfl
  | ne => rfl
  | compare c => cases c <;> rfl

end Keyword

end Docket.Selector
