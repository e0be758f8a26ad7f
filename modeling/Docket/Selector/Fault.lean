import Docket.Value.Wire
import Docket.Selector.Keyword

/-!
# Why a selector is refused

A fault is the first rule of canonical form that a selector breaks, with what broke it. A rejection is a
fault, a fractional number anywhere in the selector, or an operator without a meaning.

* `Selector.Fault`, `Selector.Rejection`: the causes.
* `Selector.Fault.message`, `Selector.Rejection.message`: their wording.
-/

namespace Docket.Selector

/-- The first rule that a selector breaks. -/
inductive Fault where
  /-- The selector is not a map of one entry. -/
  | topLevel (found : Value)
  /-- The only key of the selector is not a junction. -/
  | topOperator (op : String)
  | compoundOperand (op : Keyword) (found : Value)
  | emptyCompound (op : Keyword)
  | clauseNotMap (clause : Value)
  | clauseArity (entries : List (String × Value))
  | misplacedOperator (op : String)
  | predicateNotMap (field : String) (found : Value)
  | predicateArity (field : String) (entries : List (String × Value))
  | unknownOperator (field : String) (op : String)
  | nestedNot (field : String)
  | invalidOperand (field : String) (op : Keyword) (found : Value)

/-- The wording of a fault. -/
def Fault.message : Fault → String
  | .topLevel found => "outermost key must be $and or $or, found " ++ found.text
  | .topOperator op => "outermost key must be $and or $or, found " ++ op
  | .compoundOperand op found =>
    "argument to compound operator " ++ op.text ++ " is not a list: " ++ found.text
  | .emptyCompound op => "compound operator " ++ op.text ++ " has no clauses"
  | .clauseNotMap clause => "operator argument must be a map: " ++ clause.text
  | .clauseArity entries =>
    "operator argument clause should have one key value pair, found " ++ toString entries.length ++ ": " ++
      (Value.map entries).text
  | .misplacedOperator op => op ++ " operator cannot be a top level operator"
  | .predicateNotMap field found =>
    "predicate for field " ++ field ++ " must be an operator map, found " ++ found.kind
  | .predicateArity field entries =>
    "predicate for field " ++ field ++ " should have exactly one operator, found " ++
      toString entries.length
  | .unknownOperator field op => "unknown operator " ++ op ++ " on field " ++ field
  | .nestedNot field => "$not on field " ++ field ++ " cannot wrap another $not"
  | .invalidOperand field op found =>
    "invalid operand for " ++ op.text ++ " on field " ++ field ++ ": " ++ found.text

/-- Why a selector is refused. -/
inductive Rejection where
  | fractional (n : Value.Number)
  | invalid (fault : Fault)
  | unknownOperator (op : String)

/-- The wording of a rejection. -/
def Rejection.message : Rejection → String
  | .fractional n => "invalid value encountered in query: fractional number " ++ n.text
  | .invalid fault => "invalid selector: " ++ fault.message
  | .unknownOperator op => "unknown operator: " ++ op

end Docket.Selector
