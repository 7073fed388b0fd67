import EntityMapping.Term.Basic

/-!
Expressions of filters, projections and orderings.
-/

namespace EntityMapping.Sparql

/-- An expression.  Operators, built-in functions and functions named by an IRI are calls. -/
inductive Expr where
  | term (t : Term)
  | call (function : String) (arguments : List Expr)
  | aggregate (function : String) (distinct : Bool) (arguments : List Expr)
  /-- Whether a pattern has a solution, or has none; the pattern's variables are kept. -/
  | existence (negated : Bool) (mentions : List String)
  deriving Repr

namespace Expr

mutual

/-- Whether a test for the existence of a pattern stands anywhere in the expression. -/
def testsExistence : Expr → Bool
  | .term _ => false
  | .call _ arguments => anyTestsExistence arguments
  | .aggregate _ _ arguments => anyTestsExistence arguments
  | .existence _ _ => true

/-- Whether one of the expressions tests for existence. -/
def anyTestsExistence : List Expr → Bool
  | [] => false
  | e :: rest => testsExistence e || anyTestsExistence rest

end

mutual

/-- Whether an aggregate stands anywhere in the expression. -/
def hasAggregate : Expr → Bool
  | .term _ => false
  | .call _ arguments => anyHasAggregate arguments
  | .aggregate _ _ _ => true
  | .existence _ _ => false

/-- Whether one of the expressions has an aggregate. -/
def anyHasAggregate : List Expr → Bool
  | [] => false
  | e :: rest => hasAggregate e || anyHasAggregate rest

end

mutual

/-- The variables that the expression mentions. -/
def mentioned : Expr → List String
  | .term (.var name) => [name]
  | .term _ => []
  | .call _ arguments => allMentioned arguments
  | .aggregate _ _ arguments => allMentioned arguments
  | .existence _ mentions => mentions

/-- The variables that the expressions mention. -/
def allMentioned : List Expr → List String
  | [] => []
  | e :: rest => mentioned e ++ allMentioned rest

end

/-- The conjunction of conditions; one condition stands for itself. -/
def conjunction : List Expr → Option Expr
  | [] => none
  | [e] => some e
  | es => some (.call "&&" es)

/-- Whether an expression is a constant that counts as nothing: `false`, a zero or no text. -/
def isVoid : Expr → Bool
  | .term (.literal l) => !l.isTruthy
  | _ => false

/-- The condition of a group.  A void constant that stands alone is no condition at all. -/
def groupCondition (conditions : List Expr) : Option Expr :=
  (conjunction conditions).filter (!·.isVoid)

end Expr

end EntityMapping.Sparql
