import Docket.Selector

/-!
# What a selector means

The meaning of a selector is its truth value under a valuation, which says for each field whether it stands
in a comparison to an operand. Every written form has a meaning, and so has every tree.

* `Selector.Valuation`: which comparisons hold.
* `Value.holds`: the truth of a selector as it is written. What is no selector is false.
* `Selector.holds`: the truth of a tree.
* **`Predicate.holds_negate`**: the opposite of a predicate has the opposite truth value.
-/

namespace Docket

open Selector (Junction Comparison Keyword)

/-- Which comparisons of a field with an operand hold. -/
abbrev Selector.Valuation : Type := String → Comparison → Value → Bool

variable (T : Selector.Valuation)

/-! ## Written forms -/

namespace Value

/-- The truth of what a field holds. An operand that stands alone is what the field has to equal. -/
def fieldHolds (field : String) : Value → Bool
  | .map [(op, v)] =>
    match Keyword.ofText? op with
    | some .not => !fieldHolds field v
    | some .ne => !T field .eq v
    | some (.compare c) => T field c v
    | _ => false
  | operand => T field .eq operand

mutual

/-- A map holds when all of its entries do. -/
def holds : Value → Bool
  | .map entries => entriesHold entries
  | _ => false

/-- All of the entries hold. -/
def entriesHold : List (String × Value) → Bool
  | [] => true
  | (key, v) :: rest => entryHolds key v && entriesHold rest

/-- The truth of one entry. A negated list denies that all of its clauses hold. -/
def entryHolds (key : String) : Value → Bool
  | .list clauses =>
    match Keyword.ofText? key with
    | some (.junction .and) => allHold clauses
    | some (.junction .or) => anyHolds clauses
    | some .not => !allHold clauses
    | _ => false
  | p => fieldHolds T key p

/-- All of the clauses hold. -/
def allHold : List Value → Bool
  | [] => true
  | clause :: rest => holds clause && allHold rest

/-- One of the clauses holds. -/
def anyHolds : List Value → Bool
  | [] => false
  | clause :: rest => holds clause || anyHolds rest

end

theorem entriesHold_eq_all (entries : List (String × Value)) :
    entriesHold T entries = entries.all fun e => entryHolds T e.1 e.2 := by
  induction entries with
  | nil => rfl
  | cons e rest ih => rw [entriesHold, ih, List.all_cons]

theorem allHold_eq_all (clauses : List Value) : allHold T clauses = clauses.all (holds T) := by
  induction clauses with
  | nil => rfl
  | cons c rest ih => rw [allHold, ih, List.all_cons]

theorem anyHolds_eq_any (clauses : List Value) : anyHolds T clauses = clauses.any (holds T) := by
  induction clauses with
  | nil => rfl
  | cons c rest ih => rw [anyHolds, ih, List.any_cons]

end Value

/-! ## Trees -/

/-- The truth of a condition on a field. -/
def Condition.holds (field : String) (c : Condition) : Bool := T field c.op c.operand.toValue

/-- The truth of a predicate on a field. -/
def Predicate.holds (field : String) : Predicate → Bool
  | .is c => c.holds T field
  | .not c => !c.holds T field

namespace Clause

mutual

/-- The truth of a clause. -/
def holds : Clause → Bool
  | .field name p => p.holds T name
  | .junction .and clauses => allHold clauses
  | .junction .or clauses => anyHolds clauses
  | .not clauses => !allHold clauses

/-- All of the clauses hold. -/
def allHold : List Clause → Bool
  | [] => true
  | clause :: rest => holds clause && allHold rest

/-- One of the clauses holds. -/
def anyHolds : List Clause → Bool
  | [] => false
  | clause :: rest => holds clause || anyHolds rest

end

end Clause

/-- The truth of a selector. -/
def Selector.holds : Selector → Bool
  | .wildcard => true
  | .junction .and clauses => Clause.allHold T clauses
  | .junction .or clauses => Clause.anyHolds T clauses

/-- The opposite of a predicate has the opposite truth value. -/
@[simp] theorem Predicate.holds_negate (field : String) (p : Predicate) :
    p.negate.holds T field = !p.holds T field := by
  cases p <;> simp [Predicate.negate, Predicate.holds]

end Docket
