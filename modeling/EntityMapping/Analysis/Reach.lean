import EntityMapping.Analysis.Visit

/-!
Reachability along edges.

The nodes reached are found in rounds: each round adds the ends of all edges that start at a node
reached before.  A path without repetitions has no more edges than there are, so as many rounds as
edges find everything.
-/

namespace EntityMapping.Reach

variable {α : Type} [DecidableEq α]

/-- One round: the reached nodes and the ends of their edges. -/
def expand (edges : List (α × α)) (reached : List α) : List α :=
  edges.foldl (fun seen (a, b) => if reached.contains a && !seen.contains b then seen ++ [b]
    else seen) reached

/-- Several rounds. -/
def rounds (edges : List (α × α)) : Nat → List α → List α
  | 0, reached => reached
  | n + 1, reached => rounds edges n (expand edges reached)

/-- All nodes that can be reached from a node, itself among them. -/
def closure (edges : List (α × α)) (start : α) : List α :=
  rounds edges edges.length [start]

end EntityMapping.Reach

namespace EntityMapping.Dependency

/-- The steps that keep a value single.  From object to subject is always such a step; from
subject to object it is one unless the predicate may lead to many. -/
def functionalEdges (isOneToMany : String → Bool) (ds : List Dependency) :
    List (String × String) :=
  ds.flatMap fun d =>
    if isOneToMany d.predicate then [(d.object, d.subject)]
    else [(d.subject, d.object), (d.object, d.subject)]

/-- The steps in either direction. -/
def edges (ds : List Dependency) : List (String × String) :=
  ds.flatMap fun d => [(d.subject, d.object), (d.object, d.subject)]

end EntityMapping.Dependency
