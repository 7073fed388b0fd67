import EntityMapping.Sparql.Expression
import EntityMapping.Sparql.TriplePattern

/-!
The algebra of query patterns, and how the parts of a group build it up.
-/

namespace EntityMapping.Sparql

/-- A pattern as an operation on tables of solutions. -/
inductive Algebra where
  | bgp (triples : List TriplePattern)
  | join (left right : Algebra)
  | leftJoin (left right : Algebra) (condition : Option Expr)
  | filter (condition : Expr) (p : Algebra)
  | extend (p : Algebra) (value : Expr) (name : String)
  | union (left right : Algebra)
  | minus (left right : Algebra)
  | graph (name : Term) (p : Algebra)
  | service (name : Term) (p : Algebra)
  | values (names : List String) (rows : List (List (Option Term)))
  | subSelect (p : Algebra)
  | aggregateJoin (p : Algebra)
  | orderBy (p : Algebra) (keys : List (Expr × Bool))
  | project (p : Algebra) (names : List String)
  | distinct (p : Algebra)
  | reduced (p : Algebra)
  | slice (p : Algebra) (start : Nat) (length : Option Nat)
  deriving Repr

namespace Algebra

/-- The pattern without any triple: it has one solution, which binds nothing. -/
def empty : Algebra := .bgp []

/-- Whether this is the pattern without any triple. -/
def isEmpty : Algebra → Bool
  | .bgp [] => true
  | _ => false

/-- The join of two patterns; the empty pattern adds nothing. -/
def joined (left right : Algebra) : Algebra :=
  if left.isEmpty then right else if right.isEmpty then left else .join left right

/-- The pattern under a condition, if there is one. -/
def filtered (condition : Option Expr) (p : Algebra) : Algebra :=
  match condition with
  | some e => .filter e p
  | none => p

/-- The names of the list, each once, in order of first appearance. -/
def distinctNames (names : List String) : List String :=
  names.foldl (fun seen name => if seen.contains name then seen else seen ++ [name]) []

/-- The variables that a pattern shows to a projection of everything: those written in it, with
two exceptions.  Of a bound expression only the new name counts, and of a nested selection only
what it projects. -/
def mentioned : Algebra → List String
  | .bgp triples => triples.flatMap TriplePattern.variableNames
  | .join l r => l.mentioned ++ r.mentioned
  | .leftJoin l r condition => l.mentioned ++ r.mentioned ++ condition.elim [] Expr.mentioned
  | .filter condition p => p.mentioned ++ condition.mentioned
  | .extend p _ name => p.mentioned ++ [name]
  | .union l r => l.mentioned ++ r.mentioned
  | .minus l r => l.mentioned ++ r.mentioned
  | .graph name p | .service name p =>
    (match name with | .var v => [v] | _ => []) ++ p.mentioned
  | .values names _ => names
  | .subSelect p => p.mentioned
  | .aggregateJoin p => p.mentioned
  | .orderBy p _ => p.mentioned
  | .project _ names => names
  | .distinct p => p.mentioned
  | .reduced p => p.mentioned
  | .slice p _ _ => p.mentioned

end Algebra

/-- The pattern of a group: the conditions that stand directly in it, and all else. -/
structure GroupPattern where
  condition : Option Expr
  body : Algebra

namespace GroupPattern

/-- The group as one pattern. -/
def algebra (g : GroupPattern) : Algebra :=
  Algebra.filtered g.condition g.body

/-- A group that is one pattern without a condition of its own. -/
def ofAlgebra (p : Algebra) : GroupPattern :=
  ⟨none, p⟩

end GroupPattern

/-- One part of a group. -/
inductive GroupPart where
  | triples (triples : List TriplePattern)
  | condition (e : Expr)
  | optional (g : GroupPattern)
  | minus (g : GroupPattern)
  | joined (p : Algebra)
  | bind (value : Expr) (name : String)

namespace GroupPart

/-- A condition that is part of a group. -/
def condition? : GroupPart → Option Expr
  | .condition e => some e
  | _ => none

/-- Blocks of triples that follow each other as one block. -/
def mergeBlocks : List GroupPart → List GroupPart
  | [] => []
  | .triples ts :: rest =>
    match mergeBlocks rest with
    | .triples us :: more => .triples (ts ++ us) :: more
    | more => .triples ts :: more
  | part :: rest => part :: mergeBlocks rest

/-- The pattern so far, extended by one part.  The conditions of an optional group are those of
the left join. -/
def extend (p : Algebra) : GroupPart → Algebra
  | .triples ts => Algebra.joined p (.bgp ts)
  | .condition _ => p
  | .optional g => .leftJoin p g.body g.condition
  | .minus g => .minus p g.algebra
  | .joined q => Algebra.joined p q
  | .bind value name => .extend p value name

end GroupPart

/-- The pattern of a group from its parts in order.  Conditions are taken out first, so that they
do not come between blocks of triples. -/
def GroupPattern.ofParts (parts : List GroupPart) : GroupPattern :=
  let others := parts.filter fun part => part.condition?.isNone
  ⟨Expr.groupCondition (parts.filterMap GroupPart.condition?),
    (GroupPart.mergeBlocks others).foldl GroupPart.extend Algebra.empty⟩

end EntityMapping.Sparql
