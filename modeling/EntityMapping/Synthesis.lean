import EntityMapping.Analysis
import EntityMapping.Template

/-!
Update templates from an analysis.

Creating an entity inserts one triple for every property that always has a single value.  Optional
and multi-valued properties stay out, so that absence costs no triple; each has a template of its
own that adds one value.  Slots carry the names of the variables.
-/

namespace EntityMapping

/-- What the templates of an entity are made from. -/
structure Synthesis where
  anchor : String
  described : List (String × VariableProperties)
  deriving DecidableEq, Repr

namespace Synthesis

/-- Takes the variables of an analysis; a described variable may not be ambiguous. -/
def ofVariables (anchor : String) (described : List (String × VariableProperties))
    (ambiguous : List String) : Except MappingError Synthesis :=
  let conflicting := ambiguous.filter fun name => (described.lookup name).isSome
  if conflicting.isEmpty then .ok ⟨anchor, described⟩
  else .error (.ambiguousBindings (Analysis.sortedNames conflicting))

/-- Whether a property always has a single value that is linked to the anchor. -/
def isMandatory (p : VariableProperties) : Bool :=
  p.functional && !p.nullable && p.predicate.isSome

/-- The mandatory variables in order. -/
def mandatory (s : Synthesis) : List String :=
  (s.described.filter fun (_, p) => isMandatory p).map Prod.fst

/-- The triple of one property. -/
def tripleText (s : Synthesis) (name predicate : String) : Except MappingError String := do
  let p ← checkIri predicate
  return "?" ++ s.anchor ++ " " ++ p.n3 ++ " ?" ++ name ++ " ."

/-- The triples of the mandatory properties in order. -/
def mandatoryTriples (s : Synthesis) : Except MappingError (List String) :=
  (s.described.filter fun (_, p) => isMandatory p).mapM fun (name, p) =>
    s.tripleText name (p.predicate.getD "")

/-- The template of a creation. -/
def creation (s : Synthesis) : Except MappingError String := do
  let triples ← s.mandatoryTriples
  return if triples.isEmpty then "INSERT DATA \x7b \x7d"
    else "INSERT DATA \x7b " ++ " ".intercalate triples ++ " \x7d"

/-- The template that adds one value of a property. -/
def initializer (s : Synthesis) (name : String) : Except MappingError String :=
  match s.described.lookup name with
  | none => .error (.noDescriptor name)
  | some p =>
    match p.predicate with
    | none => .error (.notLinked name s.anchor)
    | some predicate => do
      return "INSERT DATA \x7b " ++ (← s.tripleText name predicate) ++ " \x7d"

end Synthesis

end EntityMapping
