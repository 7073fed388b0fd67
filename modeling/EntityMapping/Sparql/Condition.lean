import EntityMapping.Sparql.Comparison
import EntityMapping.Sparql.Expression
import EntityMapping.Sparql.Solution

/-!
The value of an expression in a solution.

An expression may have no value: a variable is unbound, an operator does not fit its operands, or a
function is none of those known here.  A conjunction is false as soon as an operand is false and
has no value when an operand in front of it has none; a disjunction is true when any operand is
true.
-/

namespace EntityMapping.Sparql

namespace Expr

/-- The term of a truth value. -/
def ofBool (b : Bool) : Term :=
  .literal (.ofDatum (.boolean b) none)

/-- The truth value that a term counts as: texts unless empty, numbers unless zero. -/
def truth? : Term → Option Bool
  | .literal l =>
    if l.datatype.all (· == Xsd.string) then some (!l.lexical.isEmpty)
    else l.value.map Datum.isTruthy
  | _ => none

/-- A comparison of two literals by their order. -/
def ordered? (test : Ordering → Bool) : Term → Term → Option Bool
  | .literal a, .literal b => some (test (a.order b))
  | _, _ => none

/-- The value of a comparison. -/
def compared? (operator : String) (a b : Term) : Option Bool :=
  match operator with
  | "=" => a.equalValue? b
  | "!=" => (a.equalValue? b).map (!·)
  | "<" => ordered? (· == .lt) a b
  | ">" => ordered? (· == .gt) a b
  | "<=" => ordered? (· != .gt) a b
  | ">=" => ordered? (· != .lt) a b
  | _ => none

/-- All operands in turn, up to the first that is false or has no value. -/
def conjoin : List (Option Bool) → Option Bool
  | [] => some true
  | some true :: rest => conjoin rest
  | some false :: _ => some false
  | none :: _ => none

/-- Whether some operand is true; none has a value of its own only when all have. -/
def disjoin (operands : List (Option Bool)) : Option Bool :=
  if operands.contains (some true) then some true
  else if operands.contains none then none
  else some false

mutual

/-- The term that an expression has in a solution. -/
def evaluate (s : Solution) : Expr → Option Term
  | .term (.var name) => s.term? name
  | .term t => some t
  | .call function arguments => evaluateCall s function arguments
  | .aggregate _ _ _ => none
  | .existence _ _ => none

/-- The term of a call. -/
def evaluateCall (s : Solution) (function : String) : List Expr → Option Term
  | [.term (.var name)] =>
    match function with
    | "BOUND" => some (ofBool (s.binds name))
    | "!" => ((s.term? name).bind truth?).map fun b => ofBool (!b)
    | _ => none
  | arguments =>
    let values := evaluateAll s arguments
    match function, values with
    | "!", [some t] => (truth? t).map fun b => ofBool (!b)
    | "&&", _ => (conjoin (values.map (·.bind truth?))).map ofBool
    | "||", _ => (disjoin (values.map (·.bind truth?))).map ofBool
    | "IN", some t :: others => (others.mapM fun u => u).map fun us => ofBool (t.memberOf us)
    | "NOT IN", some t :: others =>
      (others.mapM fun u => u).map fun us => ofBool (!t.memberOf us)
    | _, [some a, some b] => (compared? function a b).map ofBool
    | _, _ => none

/-- The terms of several expressions. -/
def evaluateAll (s : Solution) : List Expr → List (Option Term)
  | [] => []
  | e :: rest => evaluate s e :: evaluateAll s rest

end

/-- Whether a condition holds in a solution; one without a truth value does not. -/
def holdsIn (condition : Expr) (s : Solution) : Bool :=
  (condition.evaluate s).bind truth? == some true

end Expr

end EntityMapping.Sparql
