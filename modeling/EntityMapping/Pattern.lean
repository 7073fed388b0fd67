import EntityMapping.Sparql.Algebra

/-!
Graph patterns as the analysis sees them: blocks of triples, conjunctions, optional parts,
alternatives, and whatever it refuses to reason about.

Conditions and bound expressions are transparent.  They neither bind nor unbind a variable through
a predicate, so they leave no trace; only a condition that tests for the existence of a pattern is
refused.
-/

namespace EntityMapping

open Sparql (Algebra TriplePattern)

/-- A tree of patterns. -/
inductive Pattern where
  | basic (triples : List TriplePattern)
  | group (children : List Pattern)
  | optional (child : Pattern)
  | union (branches : List Pattern)
  | unsupported (element : String)
  /-- A node that is no pattern at all, by its text. -/
  | foreign (text : String)
  deriving Repr

namespace Pattern

mutual

/-- Every triple of the tree, depth first. -/
def triples : Pattern → List TriplePattern
  | .basic ts => ts
  | .group children => triplesOfAll children
  | .optional child => child.triples
  | .union branches => triplesOfAll branches
  | .unsupported _ => []
  | .foreign _ => []

/-- Every triple of the trees, in order. -/
def triplesOfAll : List Pattern → List TriplePattern
  | [] => []
  | p :: rest => p.triples ++ triplesOfAll rest

end

/-- The names of the variables that the tree mentions, each once. -/
def variableNames (p : Pattern) : List String :=
  Algebra.distinctNames (p.triples.flatMap TriplePattern.variableNames)

/-- What refused tests for existence are called. -/
def existenceElement : String := "FILTER EXISTS"

/-- The pattern of an algebra expression. -/
def ofAlgebra : Algebra → Pattern
  | .bgp ts => .basic ts
  | .join l r => .group [ofAlgebra l, ofAlgebra r]
  | .leftJoin l r condition =>
    if condition.any (·.testsExistence) then .unsupported existenceElement
    else .group [ofAlgebra l, .optional (ofAlgebra r)]
  | .filter condition p =>
    if condition.testsExistence then .unsupported existenceElement else ofAlgebra p
  | .extend p _ _ => ofAlgebra p
  | .union l r => .union [ofAlgebra l, ofAlgebra r]
  | .minus _ _ => .unsupported "Minus"
  | .graph _ _ => .unsupported "Graph"
  | .service _ _ => .unsupported "ServiceGraphPattern"
  | .values names rows =>
    if names.isEmpty || rows.isEmpty then .unsupported "SubSelect" else .basic []
  | .subSelect _ => .unsupported "SubSelect"
  | .aggregateJoin _ => .unsupported "AggregateJoin"
  | .orderBy p _ => ofAlgebra p
  | .project p _ => ofAlgebra p
  | .distinct p => ofAlgebra p
  | .reduced p => ofAlgebra p
  | .slice p _ _ => ofAlgebra p

end Pattern

end EntityMapping
