import EntityMapping.Graph
import EntityMapping.Sparql.Algebra
import EntityMapping.Sparql.Condition

/-!
The solutions of patterns in a graph.

Every pattern has a list of solutions, found from those of its parts.  A blank node in a pattern is
an unknown like a variable; what it stands for is known inside a block of triples and its joins but
can never be projected.

A selection is answered in another way.  Each solution of the left side of a join is handed to the
right side, which looks for what extends it.  Where every optional part stands behind the triples
that bind its variables this finds the solutions; where it stands in front of them, what is handed
in decides whether the part has a match.
-/

namespace EntityMapping.Sparql

/-- The name under which a term of a pattern is an unknown. -/
def unknownName? : Term → Option String
  | .var name => some name
  | .blank label => some ("_:" ++ label)
  | _ => none

/-- The ways in which a term of a pattern can stand for a term of the graph. -/
def matchTerm (pattern t : Term) (s : Solution) : Option Solution :=
  match unknownName? pattern with
  | some name =>
    match s.term? name with
    | some known => if known.same t then some s else none
    | none => some (s.assign name t)
  | none => if pattern.same t then some s else none

/-- The ways in which a pattern can stand for a triple. -/
def TriplePattern.matchTriple (p : TriplePattern) (t : Triple) (s : Solution) : Option Solution :=
  match p.predicate with
  | .step predicate => do
    let s ← matchTerm p.subject t.subject s
    let s ← matchTerm predicate t.predicate s
    matchTerm p.object t.object s
  | _ => none

/-- The solutions of a block of triples that extend a solution. -/
def solveBlock (g : Graph) : List TriplePattern → Solution → List Solution
  | [], s => [s]
  | p :: rest, s => (g.filterMap fun t => p.matchTriple t s).flatMap (solveBlock g rest)

/-- All merges of compatible solutions, in the order of the left ones. -/
def joinSolutions (left right : List Solution) : List Solution :=
  left.flatMap fun s => (right.filter s.compatible).map s.merge

/-- Each solution on the left, extended by those on the right that fit it; kept as it is where
none does. -/
def leftJoinSolutions (condition : Option Expr) (left right : List Solution) : List Solution :=
  left.flatMap fun s =>
    match ((right.filter s.compatible).map s.merge).filter
        fun t => condition.all (·.holdsIn t) with
    | [] => [s]
    | extended => extended

/-- The solutions on the left without those that share a binding with one on the right. -/
def minusSolutions (left right : List Solution) : List Solution :=
  left.filter fun s =>
    !right.any fun t => s.compatible t && s.any fun (name, _) => t.binds name

/-- The order of two solutions by the keys of an ordering. -/
def compareByKeys (keys : List (Expr × Bool)) (s t : Solution) : Ordering :=
  keys.foldl (fun found (key, descending) => found.then <|
    let order := Term.order (key.evaluate s) (key.evaluate t)
    if descending then reverseOrder order else order) .eq

/-- The solution of one row of inline data. -/
def rowSolution (names : List String) (row : List (Option Term)) : Solution :=
  (names.zip row).filterMap fun (name, t) => t.map (name, ·)

namespace Algebra

/-- The solutions of a pattern in a graph.  Named graphs, remote services, property paths and
aggregates have none here. -/
def solutions (g : Graph) : Algebra → List Solution
  | .bgp triples => solveBlock g triples Solution.empty
  | .join l r => joinSolutions (l.solutions g) (r.solutions g)
  | .leftJoin l r condition => leftJoinSolutions condition (l.solutions g) (r.solutions g)
  | .filter condition p => (p.solutions g).filter condition.holdsIn
  | .extend p value name => (p.solutions g).map fun s =>
    match value.evaluate s with
    | some t => s.assign name t
    | none => s
  | .union l r => l.solutions g ++ r.solutions g
  | .minus l r => minusSolutions (l.solutions g) (r.solutions g)
  | .graph _ _ => []
  | .service _ _ => []
  | .values names rows => rows.map (rowSolution names)
  | .subSelect p => p.solutions g
  | .aggregateJoin _ => []
  | .orderBy p keys => (p.solutions g).mergeSort fun s t => compareByKeys keys s t != .gt
  | .project p names => (p.solutions g).map (·.restrict names)
  | .distinct p => Solution.distinct (p.solutions g)
  | .reduced p => Solution.distinct (p.solutions g)
  | .slice p start length =>
    let behind := (p.solutions g).drop start
    length.elim behind behind.take

/-- Whether a pattern can be answered from what is handed to it.  Where repetitions are dropped or
rows are cut, that has to be done to all of its solutions. -/
def takesBindings : Algebra → Bool
  | .bgp _ => true
  | .join _ _ => true
  | .leftJoin l r _ => l.takesBindings && r.takesBindings
  | .filter _ p => p.takesBindings
  | .extend p _ _ => p.takesBindings
  | .union l r => l.takesBindings && r.takesBindings
  | .minus l r => l.takesBindings && r.takesBindings
  | .graph _ p => p.takesBindings
  | .service _ p => p.takesBindings
  | .values _ _ => true
  | .subSelect p => p.takesBindings
  | .aggregateJoin p => p.takesBindings
  | .orderBy p _ => p.takesBindings
  | .project p _ => p.takesBindings
  | .distinct _ => false
  | .reduced p => p.takesBindings
  | .slice _ _ _ => false

/-- The answers of a pattern in a graph to what is given.

An optional part is matched from the solution that it is to extend.  If it has no match there, the
solution is kept unless the part has one for what the left side alone says; a left side that says
nothing leaves what is given. -/
def answers (g : Graph) : Algebra → Solution → List Solution
  | .bgp triples, given => solveBlock g triples given
  | .join l r, given =>
    if l.takesBindings && r.takesBindings then
      (l.answers g given).flatMap fun s => (r.answers g s).map s.merge
    else joinSolutions (l.answers g given) (r.answers g given)
  | .leftJoin l r condition, given =>
    (l.answers g given).flatMap fun s =>
      match ((r.answers g s).map s.merge).filter
          fun t => condition.all (·.holdsIn (t.beyond given [])) with
      | [] =>
        let own := s.restrict l.mentioned
        if (r.answers g (if own.isEmpty then given else own)).any
            fun t => condition.all (·.holdsIn t) then [] else [s]
      | extended => extended
  | .filter condition p, given =>
    (p.answers g given).filter fun s => condition.holdsIn (s.beyond given p.mentioned)
  | .extend p value name, given => (p.answers g given).map fun s =>
    match value.evaluate (s.beyond given p.mentioned) with
    | some t => s.assign name t
    | none => s
  | .union l r, given => l.answers g given ++ r.answers g given
  | .minus l r, given => minusSolutions (l.answers g given) (r.answers g given)
  | .graph _ _, _ => []
  | .service _ _, _ => []
  | .values names rows, given =>
    ((rows.map (rowSolution names)).filter given.compatible).map given.merge
  | .subSelect p, given => p.answers g given
  | .aggregateJoin _, _ => []
  | .orderBy p keys, given =>
    (p.answers g given).mergeSort fun s t => compareByKeys keys s t != .gt
  | .project p names, given => (p.answers g given).map (·.restrict names)
  | .distinct p, given => Solution.distinct (p.answers g given)
  | .reduced p, given => Solution.distinct (p.answers g given)
  | .slice p start length, given =>
    let behind := (p.answers g given).drop start
    length.elim behind behind.take

end Algebra

end EntityMapping.Sparql
