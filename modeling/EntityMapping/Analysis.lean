import EntityMapping.Analysis.Hints
import EntityMapping.Analysis.Reach
import EntityMapping.SelectQuery

/-!
What a selection says about its variables, seen from the variable that stands for an entity.

For every other projected variable the analysis finds whether it has a single value, whether it
may be unbound, whether it stands for an entity, and which predicate links it to the anchor.
-/

namespace EntityMapping

/-- What is known about one variable. -/
structure VariableProperties where
  functional : Bool
  nullable : Bool
  datatype : String
  isObjectReference : Bool
  predicate : Option String
  deriving DecidableEq, Repr

/-- The outcome of an analysis. -/
structure Analysis where
  anchor : String
  described : List (String × VariableProperties)
  dependencies : List Dependency
  ambiguous : List String
  deriving DecidableEq, Repr

namespace Analysis

/-- The type of entities of which nothing is known. -/
def genericEntity : String := "Entity"

/-- The datatype of literals of which nothing is known. -/
def anyLiteral : String := "Literal"

/-- Whether two optional contexts lie side by side, neither inside the other. -/
def areSiblings (a b : List Nat) : Bool :=
  !a.isPrefixOf b && !b.isPrefixOf a

/-- Whether some two contexts lie side by side. -/
def hasSiblings (contexts : List (List Nat)) : Bool :=
  contexts.any fun a => contexts.any (areSiblings a)

/-- The predicates of the triples whose object the variable is, each once. -/
def rangesOf (visits : List Visit) (name : String) : List String :=
  ((visits.filter (Visit.hasObject name)).map Visit.predicate).eraseDups

/-- The contexts in which the variable occurs. -/
def contextsOf (visits : List Visit) (name : String) : List (List Nat) :=
  (visits.filter (Visit.mentions name)).map Visit.context

/-- The predicates that link the anchor directly to the variable, each once. -/
def directPredicates (ds : List Dependency) (anchor name : String) : List String :=
  ((ds.filter fun d => d.subject == anchor && d.object == name).map
    Dependency.predicate).eraseDups

/-- The one predicate that owns the variable, if any; several are refused. -/
def owningPredicate (name : String) (predicates : List String) :
    Except MappingError (Option String) :=
  match predicates with
  | [] => .ok none
  | [p] => .ok (some p)
  | _ => .error (.severalPredicates name (predicates.mergeSort fun a b => decide (a ≤ b)))

/-- The only element of a list. -/
def sole? : List String → Option String
  | [p] => some p
  | _ => none

/-- The predicate by which the hints type a variable: the one that owns it or, failing that, the
only one that leads to it.  An empty predicate counts as none. -/
def typingPredicate (owning sole : Option String) : String :=
  match owning with
  | some p => if p.isEmpty then sole.getD "" else p
  | none => sole.getD ""

/-- Whether the variable has a single value: it is reached without a step that may lead to many,
or it is not connected to the anchor at all. -/
def isFunctional (hints : SchemaHints) (ds : List Dependency) (anchor name : String) : Bool :=
  (Reach.closure (Dependency.functionalEdges hints.isOneToMany ds) anchor).contains name ||
    !(Reach.closure (Dependency.edges ds) anchor).contains name

/-- Whether every occurrence of the variable lies in an optional part. -/
def isNullable (visits : List Visit) (name : String) : Bool :=
  !(contextsOf visits name).contains []

/-- Whether the variable is bound in optional parts side by side and nowhere outside them. -/
def isAmbiguous (visits : List Visit) (name : String) : Bool :=
  isNullable visits name && hasSiblings (contextsOf visits name)

/-- What is known about one variable. -/
def propertiesOf (hints : SchemaHints) (visits : List Visit) (anchor name : String) :
    Except MappingError VariableProperties := do
  let ranges := rangesOf visits name
  let isSubject := visits.any (Visit.hasSubject name)
  if ranges.isEmpty && !isSubject then throw (.unresolvedType name)
  let ds := Visit.dependencies visits
  let predicate ← owningPredicate name (directPredicates ds anchor name)
  let sole := sole? ranges
  let isReference := isSubject || sole.any hints.hasEntityRange
  let typing := typingPredicate predicate sole
  return {
    functional := isFunctional hints ds anchor name
    nullable := isNullable visits name
    datatype :=
      if isReference then (hints.entityRange? typing).getD genericEntity
      else (hints.literalRange? typing).getD anyLiteral
    isObjectReference := isReference
    predicate := predicate }

/-- The projected variables other than the anchor, each once. -/
def targets (q : SelectQuery) (anchor : String) : List String :=
  Sparql.Algebra.distinctNames (q.projected.filter (· != anchor))

/-- Analyzes a selection around its anchor. -/
def derive (q : SelectQuery) (anchor : String) (hints : SchemaHints) :
    Except MappingError Analysis := do
  if !q.projected.contains anchor then throw (.unknownAnchor anchor)
  let visits ← Visit.all q.pattern
  let names := targets q anchor
  let described ← names.mapM fun name => do
    return (name, ← propertiesOf hints visits anchor name)
  return {
    anchor := anchor
    described := described
    dependencies := Visit.dependencies visits
    ambiguous := names.filter (isAmbiguous visits) }

/-- The names in ascending order. -/
def sortedNames (names : List String) : List String :=
  names.mergeSort fun a b => decide (a ≤ b)

/-- Refuses an analysis in which some variable is ambiguous. -/
def requireUnambiguous (a : Analysis) : Except MappingError Unit :=
  if a.ambiguous.isEmpty then .ok ()
  else .error (.ambiguousBindings (sortedNames a.ambiguous))

end Analysis

end EntityMapping
