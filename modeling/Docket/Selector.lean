import Docket.Selector.Check

/-!
# Selectors

A selector as a typed tree: everything, or a junction of clauses. A field is tested by one condition that
holds or does not hold; operands are scalars, and a double that is read is whole.

* `Selector`, `Clause`, `Predicate`, `Condition`, `Operand`: the tree.
* `Selector.parse`: the tree of a value in any form.
* `Selector.ofCanonical`: the tree of a value that passes the check as it stands.
* `Selector.toValue`: back to canonical form.
* `Selector.fields`: the fields in order of first use.
-/

namespace Docket

open Selector (Junction Comparison Keyword Fault Rejection)

/-- What a field is compared with. -/
inductive Operand where
  | bool (b : Bool)
  | int (n : Int64)
  | uint (n : UInt64)
  | float (x : Binary64)
  | str (s : String)
deriving DecidableEq

/-- A comparison with an operand. -/
structure Condition where
  op : Comparison
  operand : Operand
deriving DecidableEq

/-- A condition that holds, or one that does not. -/
inductive Predicate where
  | is (c : Condition)
  | not (c : Condition)
deriving DecidableEq

/-- A clause. A negated list of clauses is true when not all of them are. -/
inductive Clause where
  | field (name : String) (p : Predicate)
  | junction (j : Junction) (clauses : List Clause)
  | not (clauses : List Clause)

/-- A selector: everything, or a junction of clauses. -/
inductive Selector where
  | wildcard
  | junction (j : Junction) (clauses : List Clause)

/-! ## From values -/

namespace Operand

/-- The operand that a value is, for an operator on a field. -/
def ofValue (field : String) (op : Keyword) : Value → Except Rejection Operand
  | .bool b => .ok (.bool b)
  | .num (.int n) => .ok (.int n)
  | .num (.uint n) => .ok (.uint n)
  | .num (.float x) =>
    if x.IsWhole then .ok (.float x)
    else .error (.invalid (.invalidOperand field op (.num (.float x))))
  | .str s => .ok (.str s)
  | found => .error (.invalid (.invalidOperand field op found))

/-- An operand as a value. -/
def toValue : Operand → Value
  | .bool b => .bool b
  | .int n => .num (.int n)
  | .uint n => .num (.uint n)
  | .float x => .num (.float x)
  | .str s => .str s

end Operand

namespace Predicate

/-- The condition, negated or not. -/
def condition : Predicate → Condition
  | .is c => c
  | .not c => c

/-- The opposite predicate. -/
def negate : Predicate → Predicate
  | .is c => .not c
  | .not c => .is c

/-- The predicate that a value is, for a field. -/
def ofValue (field : String) : Value → Except Rejection Predicate
  | .map [(op, operand)] =>
    match Keyword.ofText? op with
    | some .not => (ofValue field operand).map negate
    | some .ne => (Operand.ofValue field .ne operand).map fun v => .not ⟨.eq, v⟩
    | some (.compare c) => (Operand.ofValue field (.compare c) operand).map fun v => .is ⟨c, v⟩
    | _ => .error (.unknownOperator op)
  | found => .error (.invalid (.predicateNotMap field found))

/-- A predicate as a value. -/
def toValue : Predicate → Value
  | .is c => .single c.op.text c.operand.toValue
  | .not c => .single "$not" (.single c.op.text c.operand.toValue)

end Predicate

namespace Clause

mutual

/-- The clause that a value is. -/
def ofValue : Value → Except Rejection Clause
  | .map [(key, v)] =>
    match Keyword.ofText? key with
    | some (.junction j) => (operand (.junction j) v).map (.junction j)
    | some .not => (operand .not v).map .not
    | _ => (Predicate.ofValue key v).map (.field key)
  | clause => .error (.invalid (.clauseNotMap clause))

/-- The clauses under a compound operator. -/
def operand (op : Keyword) : Value → Except Rejection (List Clause)
  | .list items => ofValues items
  | found => .error (.invalid (.compoundOperand op found))

/-- Clauses in order. -/
def ofValues : List Value → Except Rejection (List Clause)
  | [] => .ok []
  | v :: rest => do
    let clause ← ofValue v
    let rest ← ofValues rest
    return clause :: rest

end

mutual

/-- A clause as a value. -/
def toValue : Clause → Value
  | .field name p => .single name p.toValue
  | .junction j clauses => .single j.text (.list (toValues clauses))
  | .not clauses => .single "$not" (.list (toValues clauses))

/-- Clauses as values. -/
def toValues : List Clause → List Value
  | [] => []
  | clause :: rest => toValue clause :: toValues rest

end

mutual

/-- The fields of a clause in order of use. -/
def names : Clause → List String
  | .field name _ => [name]
  | .junction _ clauses => namesOf clauses
  | .not clauses => namesOf clauses

/-- The fields of clauses in order of use. -/
def namesOf : List Clause → List String
  | [] => []
  | clause :: rest => names clause ++ namesOf rest

end

end Clause

namespace Selector

/-- The tree of a value that has been checked. -/
def lift : Value → Except Rejection Selector
  | .map [(op, v)] =>
    match Junction.ofText? op with
    | some j => (Clause.operand (.junction j) v).map (.junction j)
    | none => .error (.unknownOperator op)
  | found => .error (.invalid (.topLevel found))

/-- The tree of a canonical form. -/
def liftCanonical : Value → Except Rejection Selector
  | .map [] => .ok .wildcard
  | v => lift v

/-- The selector that a value in any form is. -/
def parse (raw : Value) : Except Rejection Selector := (canonical raw).bind liftCanonical

/-- The selector that a value is as it stands. -/
def ofCanonical : Value → Except Rejection Selector
  | .map [] => .ok .wildcard
  | v =>
    match check v with
    | .error fault => .error (.invalid fault)
    | .ok () => lift v

/-- The canonical form of a selector. -/
def toValue : Selector → Value
  | .wildcard => .empty
  | .junction j clauses => .single j.text (.list (Clause.toValues clauses))

/-- A selector as compact JSON text. -/
def text (s : Selector) : String := s.toValue.text

/-- The elements of a list without those that came before. -/
def firstUses (names : List String) : List String :=
  names.foldl (fun seen name => if name ∈ seen then seen else seen ++ [name]) []

/-- The fields of a selector in order of first use. -/
def fields : Selector → List String
  | .wildcard => []
  | .junction _ clauses => firstUses (Clause.namesOf clauses)

end Selector

end Docket
