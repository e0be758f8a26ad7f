import Docket.Selector.Fault
import Docket.Selector.Longhand

/-!
# Checking canonical form

A checked selector is a junction over clauses. A clause is a field with one operator and a fitting operand,
possibly under one `$not`, or again a compound: a junction or `$not` over clauses. A list of clauses is never
empty. The check stops at the first fault. Any other selector has a canonical form if its longhand passes the check.

* `Selector.OperandFits`: an operand that suits an operator.
* `Selector.checkPredicate`, `Selector.checkClause`, `Selector.check`: the three levels.
* `Selector.canonical`: the canonical form of a value, or why it has none.
-/

namespace Docket.Selector

/-- An operand for `$exists` is a truth value; for the others it is a string or a number that is not
fractional. -/
def OperandFits (op : Keyword) (operand : Value) : Prop :=
  match op, operand with
  | .compare .present, .bool _ => True
  | .compare .present, _ => False
  | _, .str _ => True
  | _, .num n => ¬ n.Fractional
  | _, _ => False

instance (op : Keyword) (operand : Value) : Decidable (OperandFits op operand) := by
  unfold OperandFits; split <;> infer_instance

/-- The predicate of a field, under a `$not` or not. -/
def checkPredicate (field : String) (negated : Bool) : Value → Except Fault Unit
  | .map [(op, operand)] =>
    match Keyword.ofText? op with
    | none => .error (.unknownOperator field op)
    | some (.junction _) => .error (.unknownOperator field op)
    | some .not =>
      if negated then .error (.nestedNot field)
      else match operand with
        | .map entries => checkPredicate field true (.map entries)
        | operand => .error (.invalidOperand field .not operand)
    | some keyword =>
      if OperandFits keyword operand then .ok () else .error (.invalidOperand field keyword operand)
  | .map entries => .error (.predicateArity field entries)
  | found => .error (.predicateNotMap field found)

mutual

/-- A clause. -/
def checkClause : Value → Except Fault Unit
  | .map [(key, v)] =>
    match Keyword.ofText? key with
    | some (.junction j) => checkCompound (.junction j) v
    | some .not => checkCompound .not v
    | _ => if IsOperator key then .error (.misplacedOperator key) else checkPredicate key false v
  | .map entries => .error (.clauseArity entries)
  | clause => .error (.clauseNotMap clause)

/-- The operand of a compound operator. -/
def checkCompound (op : Keyword) : Value → Except Fault Unit
  | .list [] => .error (.emptyCompound op)
  | .list (clause :: rest) => do
    checkClause clause
    checkClauses rest
  | found => .error (.compoundOperand op found)

/-- Clauses in order. -/
def checkClauses : List Value → Except Fault Unit
  | [] => .ok ()
  | clause :: rest => do
    checkClause clause
    checkClauses rest

end

/-- A whole selector. -/
def check : Value → Except Fault Unit
  | .map [(key, v)] =>
    match Keyword.ofText? key with
    | some (.junction j) => checkCompound (.junction j) v
    | _ => .error (.topOperator key)
  | found => .error (.topLevel found)

/-- A selector that passes the check. -/
def Valid (v : Value) : Prop := check v = .ok ()

instance (v : Value) : Decidable (Valid v) :=
  match h : check v with
  | .ok () => .isTrue h
  | .error _ => .isFalse (by rw [Valid, h]; exact nofun)

/-! ## Canonical form -/

/-- The canonical form of a selector. The empty map selects everything and is canonical as it stands; a fractional
number anywhere refuses a selector before anything else is looked at. -/
def canonical (raw : Value) : Except Rejection Value :=
  match raw.fraction? with
  | some n => .error (.fractional n)
  | none =>
    match raw with
    | .map [] => .ok .empty
    | raw =>
      match check (longhand raw) with
      | .error fault => .error (.invalid fault)
      | .ok () => .ok (longhand raw)

end Docket.Selector
