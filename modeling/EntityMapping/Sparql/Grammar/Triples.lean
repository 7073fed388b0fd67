import EntityMapping.Sparql.Grammar.Terms

/-!
Blocks of triples: predicate and object lists, nodes with properties of their own, and
collections.
-/

namespace EntityMapping.Sparql.Grammar

open EntityMapping.Sparql.Parser

variable (env : Prologue) (verb : Parser Path)

/-- The links of a collection from its nodes: the list's node and its triples. -/
def collectionLinks (label : String) : (index : Nat) → List Term → Term × List TriplePattern
  | _, [] => (.iri Rdf.nil, [])
  | index, item :: rest =>
    let node := Term.blank (label ++ toString index)
    let (tail, triples) := collectionLinks label (index + 1) rest
    (node, TriplePattern.plain node (.iri Rdf.first) item ::
      TriplePattern.plain node (.iri Rdf.rest) tail :: triples)

mutual

/-- A node: a term, or a node that brings triples along. -/
def nodeWithin : (fuel : Nat) → Parser (Term × List TriplePattern)
  | 0 => failure
  | fuel + 1 => (do return (← varOrTerm env, [])) <|> richNodeWithin fuel

/-- A collection, or a blank node with properties in brackets. -/
def richNodeWithin : (fuel : Nat) → Parser (Term × List TriplePattern)
  | 0 => failure
  | fuel + 1 =>
    (do
      let place ← remaining
      let nodes ← between "(" ")" (atLeastOne (nodeWithin fuel))
      let (list, links) :=
        collectionLinks ("(" ++ toString place ++ ")") 0 (nodes.map Prod.fst)
      return (list, links ++ nodes.flatMap Prod.snd)) <|>
    (do
      let node ← freshBlank
      let triples ← between "[" "]" (propertiesWithin fuel node)
      return (node, triples))

/-- Predicates and objects of a subject, at least one pair of them. -/
def propertiesWithin : (fuel : Nat) → Term → Parser (List TriplePattern)
  | 0, _ => failure
  | fuel + 1, subject => do
    let first ← propertyWithin fuel subject
    let others ← many do
      sign ";"
      optionally (propertyWithin fuel subject)
    return first ++ others.flatMap fun triples => triples.getD []

/-- One predicate with its objects. -/
def propertyWithin : (fuel : Nat) → Term → Parser (List TriplePattern)
  | 0, _ => failure
  | fuel + 1, subject => do
    let predicate ← verb
    let nodes ← separated "," (nodeWithin fuel)
    return nodes.flatMap fun (object, triples) => ⟨subject, predicate, object⟩ :: triples

end

/-- The triples of one subject. -/
def triplesOfSubject : Parser (List TriplePattern) := do
  let fuel := 5 * (← supplied) + 5
  (do
    let subject ← varOrTerm env
    propertiesWithin env verb fuel subject) <|>
  (do
    let (subject, triples) ← richNodeWithin env verb fuel
    let others ← optionally (propertiesWithin env verb fuel subject)
    return triples ++ others.getD [])

/-- Triples of several subjects with points between them; a point may end them. -/
def triplesBlock : Parser (List TriplePattern) := do
  let first ← triplesOfSubject env verb
  let others ← many do
    sign "."
    triplesOfSubject env verb
  let _ ← optionally (sign ".")
  return first ++ others.flatten

end EntityMapping.Sparql.Grammar
