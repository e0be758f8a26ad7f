import Docket.Value
import Docket.Selector.Keyword

/-!
# The forms of a selector

What a selector looks like, said without the steps that read it. Three languages share one shape, a junction
over clauses, and differ in what a field may hold.

* `Selector.Suits`: an operand for a comparison.
* `Selector.ClauseOver`, `Selector.JunctionOver`: clauses and selectors over the forms of a field.
* `Selector.WrittenField`, `Selector.CheckedField`, `Selector.CanonicalField`: the forms of a field.
* `Selector.Written`, `Selector.Checked`, `Selector.IsCanonical`: the three languages. The canonical one is
  the smallest; `$ne` and negated negations are no part of it (**`Selector.CanonicalField.checked`**,
  **`Selector.CheckedField.written`**).
-/

namespace Docket.Selector

/-! ## Operands -/

/-- A string, or a number that is not fractional. -/
inductive IsOperand : Value → Prop where
  | str (s : String) : IsOperand (.str s)
  | num {n : Value.Number} (h : ¬ n.Fractional) : IsOperand (.num n)

/-- Presence is compared with a truth value, everything else with an operand. -/
inductive Suits : Comparison → Value → Prop where
  | present (b : Bool) : Suits .present (.bool b)
  | operand {c : Comparison} {v : Value} (hc : c ≠ .present) (hv : IsOperand v) : Suits c v

/-! ## What a field holds -/

/-- One comparison. -/
inductive ComparisonForm : Value → Prop where
  | compare {c : Comparison} {v : Value} (h : Suits c v) : ComparisonForm (.single c.text v)

/-- In canonical form a field holds a comparison or its negation. -/
inductive CanonicalField : Value → Prop where
  | is {p : Value} (h : ComparisonForm p) : CanonicalField p
  | not {p : Value} (h : ComparisonForm p) : CanonicalField (.single "$not" p)

/-- One comparison, or `$ne`. -/
inductive TestForm : Value → Prop where
  | compare {p : Value} (h : ComparisonForm p) : TestForm p
  | ne {v : Value} (h : IsOperand v) : TestForm (.single "$ne" v)

/-- The check lets `$ne` pass too. -/
inductive CheckedField : Value → Prop where
  | is {p : Value} (h : TestForm p) : CheckedField p
  | not {p : Value} (h : TestForm p) : CheckedField (.single "$not" p)

/-- A comparison or `$ne` under any number of negations. -/
inductive WrittenPredicate : Value → Prop where
  | test {p : Value} (h : TestForm p) : WrittenPredicate p
  | not {p : Value} (h : WrittenPredicate p) : WrittenPredicate (.single "$not" p)

/-- As it is written, a field may also hold an operand that it has to equal. -/
inductive WrittenField : Value → Prop where
  | operand {v : Value} (h : IsOperand v) : WrittenField v
  | predicate {p : Value} (h : WrittenPredicate p) : WrittenField p

/-! ## Clauses and selectors -/

/-- A field with its form, or a compound over clauses of which there is at least one. -/
inductive ClauseOver (F : Value → Prop) : Value → Prop where
  | field {name : String} {v : Value} (hname : ¬ IsOperator name) (hv : F v) : ClauseOver F (.single name v)
  | junction {j : Junction} {clauses : List Value} (hne : clauses ≠ [])
      (h : ∀ c ∈ clauses, ClauseOver F c) : ClauseOver F (.single j.text (.list clauses))
  | not {clauses : List Value} (hne : clauses ≠ []) (h : ∀ c ∈ clauses, ClauseOver F c) :
      ClauseOver F (.single "$not" (.list clauses))

/-- A junction over clauses of which there is at least one. -/
inductive JunctionOver (F : Value → Prop) : Value → Prop where
  | mk {j : Junction} {clauses : List Value} (hne : clauses ≠ []) (h : ∀ c ∈ clauses, ClauseOver F c) :
      JunctionOver F (.single j.text (.list clauses))

/-- A selector as it may be written. -/
inductive Written : Value → Prop where
  | everything : Written .empty
  | junction {v : Value} (h : JunctionOver WrittenField v) : Written v
  | fields {entries : List (String × Value)} (hne : entries ≠ [])
      (h : ∀ e ∈ entries, ¬ IsOperator e.1 ∧ WrittenField e.2) : Written (.map entries)

/-- A selector that the check accepts. -/
def Checked (v : Value) : Prop := JunctionOver CheckedField v

/-- A selector in canonical form. -/
inductive IsCanonical : Value → Prop where
  | everything : IsCanonical .empty
  | junction {v : Value} (h : JunctionOver CanonicalField v) : IsCanonical v

/-! ## The order of the languages -/

theorem CanonicalField.checked {p : Value} (h : CanonicalField p) : CheckedField p := by
  cases h with
  | is h => exact .is (.compare h)
  | not h => exact .not (.compare h)

theorem CheckedField.written {p : Value} (h : CheckedField p) : WrittenField p := by
  cases h with
  | is h => exact .predicate (.test h)
  | not h => exact .predicate (.not (.test h))

/-- Clauses over more forms are more clauses. -/
theorem ClauseOver.mono {F G : Value → Prop} (hFG : ∀ v, F v → G v) {v : Value} (h : ClauseOver F v) :
    ClauseOver G v := by
  induction h with
  | field hname hv => exact .field hname (hFG _ hv)
  | junction hne _ ih => exact .junction hne ih
  | not hne _ ih => exact .not hne ih

theorem JunctionOver.mono {F G : Value → Prop} (hFG : ∀ v, F v → G v) {v : Value} (h : JunctionOver F v) :
    JunctionOver G v := by
  cases h with
  | mk hne h => exact .mk hne fun c hc => (h c hc).mono hFG

end Docket.Selector
