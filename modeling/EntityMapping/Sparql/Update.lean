import EntityMapping.Sparql.Evaluation

/-!
Updates: steps that change a graph one after the other.

A step first finds what it removes and what it adds, both in the graph as it was before the step;
then it removes, then it adds.  Blank nodes of templates stand for new nodes, other ones for each
solution.
-/

namespace EntityMapping.Sparql

/-- One step of an update. -/
inductive UpdateStep where
  | insertData (triples : List TriplePattern)
  | deleteData (triples : List TriplePattern)
  | deleteWhere (triples : List TriplePattern)
  | modify (removed added : List TriplePattern) (pattern : Algebra)
  deriving Repr

/-- A term with its blank node named anew. -/
def renameBlank (rename : String → String) : Term → Term
  | .blank label => .blank (rename label)
  | t => t

/-- Whether a blank node came without a label of its own. -/
def isAnonymous (label : String) : Bool :=
  label.startsWith "[" || label.startsWith "("

namespace TriplePattern

/-- The triple that a pattern without a path writes down. -/
def triple? (p : TriplePattern) : Option Triple :=
  match p.predicate with
  | .step predicate => some ⟨p.subject, predicate, p.object⟩
  | _ => none

/-- The term that a place of a template has in a solution. -/
def placeTerm? (s : Solution) : Term → Option Term
  | .var name => s.term? name
  | t => some t

/-- The triple of a template in a solution, if all its variables are bound. -/
def instance? (p : TriplePattern) (s : Solution) : Option Triple := do
  let t ← p.triple?
  return ⟨← placeTerm? s t.subject, ← placeTerm? s t.predicate, ← placeTerm? s t.object⟩

end TriplePattern

namespace Triple

/-- The triple with its blank nodes named anew. -/
def renameBlanks (rename : String → String) (t : Triple) : Triple :=
  ⟨renameBlank rename t.subject, renameBlank rename t.predicate, renameBlank rename t.object⟩

end Triple

namespace UpdateStep

/-- The triples of plain data.  Blank nodes without labels are new nodes. -/
def dataTriples (place : String) (triples : List TriplePattern) : List Triple :=
  (triples.filterMap TriplePattern.triple?).map <|
    Triple.renameBlanks fun label => if isAnonymous label then label ++ place else label

/-- The triples of a template in all solutions. -/
def templateTriples (place : String) (triples : List TriplePattern) (solutions : List Solution) :
    List Triple :=
  solutions.zipIdx.flatMap fun (s, index) =>
    triples.filterMap fun p =>
      (TriplePattern.triple? p).bind fun t =>
        let t := Triple.renameBlanks (fun label => label ++ place ++ "." ++ toString index) t
        TriplePattern.instance? ⟨t.subject, .step t.predicate, t.object⟩ s

/-- What a step removes from a graph and what it adds to it. -/
def effect (place : String) (g : Graph) : UpdateStep → List Triple × List Triple
  | .insertData triples => ([], dataTriples place triples)
  | .deleteData triples => (dataTriples place triples, [])
  | .deleteWhere triples =>
    (templateTriples place triples ((Algebra.bgp triples).solutions g), [])
  | .modify removed added pattern =>
    let solutions := pattern.solutions g
    (templateTriples place removed solutions, templateTriples place added solutions)

/-- The graph after a step. -/
def apply (place : String) (g : Graph) (step : UpdateStep) : Graph :=
  let (removed, added) := step.effect place g
  (g.eraseAll removed).insertAll added

end UpdateStep

/-- An update: its steps in order. -/
abbrev Update := List UpdateStep

namespace Update

/-- The graph after an update.  The serial number keeps the new nodes of different updates
apart. -/
def run (serial : Nat) (update : Update) (g : Graph) : Graph :=
  update.zipIdx.foldl (fun g (step, index) =>
    step.apply ("@" ++ toString serial ++ "." ++ toString index) g) g

end Update

end EntityMapping.Sparql
