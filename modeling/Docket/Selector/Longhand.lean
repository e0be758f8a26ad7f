import Docket.Value
import Docket.Selector.Keyword

/-!
# Selectors in longhand

Longhand says in full what a selector may leave out: the junction of its fields, the operator of an equality
and the effect of a chain of negations. Each step is defined on every value and leaves alone what it does not
know, so that the check that follows sees it.

* `Selector.wrapFields`: the entries of a selector without operators become clauses of one `$and`.
* `Selector.spellEq`: a field that holds an operand is compared with it by `$eq`.
* `Selector.collapse`: a chain of `$not` on a field becomes one `$not` or none, and `$ne` a negated `$eq`.
* `Selector.longhand`: the steps in order.
-/

namespace Docket.Selector

/-- The entries of a selector without operators as the clauses of one `$and`. -/
def wrapFields : Value → Value
  | .map entries =>
    if ∃ e ∈ entries, IsOperator e.1 then .map entries
    else .single "$and" (.list (entries.map fun e => .single e.1 e.2))
  | v => v

/-! ## Operands in place of predicates -/

mutual

/-- A clause whose fields, also those of clauses inside it, hold predicates. -/
def spellEqClause : Value → Value
  | .map [(key, p)] =>
    match p with
    | .list nested =>
      if IsOperator key then .single key (.list (spellEq nested))
      else .single key (.single "$eq" (.list nested))
    | .map entries => .single key (.map entries)
    | p => if IsOperator key then .single key p else .single key (.single "$eq" p)
  | clause => clause

/-- Clauses in order. -/
def spellEq : List Value → List Value
  | [] => []
  | clause :: rest => spellEqClause clause :: spellEq rest

end

/-! ## Chains of negations -/

/-- A `$ne` as a negated `$eq`, and a negated `$ne` as `$eq`. -/
def expandShorthand (p : Value) : Value :=
  match p.single? with
  | none => p
  | some (op, operand) =>
    match (Keyword.ofText? op).bind Keyword.shorthand? with
    | some c => .single "$not" (.single c.text operand)
    | none =>
      if op = "$not" then
        match operand.single? with
        | none => p
        | some (inner, v) =>
          match (Keyword.ofText? inner).bind Keyword.shorthand? with
          | some c => .single c.text v
          | none => p
      else p

/-- What stands under a chain of `$not`, and whether the chain has an odd number of them. There has to be a
map of one entry under it. -/
def unwrapNot? : Value → Option (Value × Bool)
  | .map [(op, v)] =>
    if op = "$not" then (unwrapNot? v).map fun r => (r.1, !r.2) else some (.single op v, false)
  | _ => none

/-- A predicate with at most one `$not`, and without shorthands. -/
def collapse (p : Value) : Value :=
  match p.single? with
  | none => p
  | some (op, operand) =>
    if op = "$not" then
      match unwrapNot? operand with
      | some (inner, true) => expandShorthand inner
      | some (inner, false) => expandShorthand (.single "$not" inner)
      | none => expandShorthand (.single "$not" operand)
    else expandShorthand p

mutual

/-- A clause whose predicates, also those of clauses inside it, are collapsed. -/
def collapseClause : Value → Value
  | .map [(key, p)] =>
    if IsOperator key then
      match p with
      | .list nested => .single key (.list (collapseClauses nested))
      | p => .single key p
    else .single key (collapse p)
  | clause => clause

/-- Clauses in order. -/
def collapseClauses : List Value → List Value
  | [] => []
  | clause :: rest => collapseClause clause :: collapseClauses rest

end

/-- All steps. -/
def longhand (v : Value) : Value :=
  match (wrapFields v).single? with
  | some (op, .list clauses) => .single op (.list (collapseClauses (spellEq clauses)))
  | _ => wrapFields v

end Docket.Selector
