import Docket.Selector

/-!
# What a selector tests

The outline of a selector leaves out by which operators a field is compared and keeps the rest: the compounds with their
nesting, and in each place the field with the operand that it is compared with. Read from left to right it gives the
tests of the selector. Written forms have an outline, and so have trees.

* `Outline`, `Outline.tests`: an outline, and its tests from left to right.
* `Value.innermost`: the operand under the operators on a field.
* `Value.outlines`, `Value.tests`: the outline of a selector as it is written. Each entry of a map has one.
* `Selector.outlines`, `Selector.tests`: the outline of a tree.
-/

namespace Docket

open Selector (IsOperator)

/-- A field with its operand, or a compound of outlines. -/
inductive Outline where
  | test (field : String) (operand : Value)
  | compound (op : String) (parts : List Outline)

namespace Outline

mutual

/-- The tests of an outline from left to right. -/
def tests : Outline → List (String × Value)
  | .test field operand => [(field, operand)]
  | .compound _ parts => testsOf parts

/-- The tests of outlines from left to right. -/
def testsOf : List Outline → List (String × Value)
  | [] => []
  | part :: rest => tests part ++ testsOf rest

end

end Outline

/-! ## Written forms -/

namespace Value

/-- What stands under maps of one entry. -/
def innermost : Value → Value
  | .map [(_, v)] => innermost v
  | v => v

mutual

/-- The outlines of the entries of a map. -/
def outlines : Value → List Outline
  | .map entries => entryOutlines entries
  | _ => []

/-- The outlines of entries in order. -/
def entryOutlines : List (String × Value) → List Outline
  | [] => []
  | (key, v) :: rest => entryOutline key v :: entryOutlines rest

/-- The outline of one entry: a compound, or a field. -/
def entryOutline (key : String) : Value → Outline
  | .list clauses => if IsOperator key then .compound key (clauseOutlines clauses) else .test key (.list clauses)
  | p => .test key p.innermost

/-- The outlines of clauses in order. -/
def clauseOutlines : List Value → List Outline
  | [] => []
  | clause :: rest => outlines clause ++ clauseOutlines rest

end

/-- The tests of a selector from left to right. -/
def tests (v : Value) : List (String × Value) := Outline.testsOf v.outlines

end Value

/-! ## Trees -/

namespace Clause

mutual

/-- The outline of a clause. -/
def outline : Clause → Outline
  | .field name p => .test name p.condition.operand.toValue
  | .junction j clauses => .compound j.text (outlinesOf clauses)
  | .not clauses => .compound "$not" (outlinesOf clauses)

/-- The outlines of clauses in order. -/
def outlinesOf : List Clause → List Outline
  | [] => []
  | clause :: rest => outline clause :: outlinesOf rest

end

end Clause

namespace Selector

/-- The outlines of a selector: none, or the one of its junction. -/
def outlines : Selector → List Outline
  | .wildcard => []
  | .junction j clauses => [.compound j.text (Clause.outlinesOf clauses)]

/-- The tests of a selector from left to right. -/
def tests (s : Selector) : List (String × Value) := Outline.testsOf s.outlines

end Selector

end Docket
