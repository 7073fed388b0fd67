import EntityMapping.Entity.Property
import EntityMapping.Synthesis

/-!
Entity types: the properties of a mapped selection, and the templates that create its entities.
-/

namespace EntityMapping

/-- What is to be said about a variable instead of what the analysis finds. -/
structure Override where
  datatype : Option String
  multiplicity : Option Multiplicity
  deriving DecidableEq, Repr

namespace Override

/-- The properties of a variable with an override; an empty datatype overrides nothing. -/
def apply (o : Override) (p : VariableProperties) : VariableProperties :=
  let p := match o.datatype with
    | some d => if d.isEmpty then p else { p with datatype := d }
    | none => p
  match o.multiplicity with
  | some .one => { p with functional := true, nullable := false }
  | some .optional => { p with functional := true, nullable := true }
  | some .many => { p with functional := false, nullable := false }
  | none => p

/-- The variables with overrides applied in order; each has to be for one of them. -/
def applyAll (described : List (String × VariableProperties)) :
    List (String × Override) → Except MappingError (List (String × VariableProperties))
  | [] => .ok described
  | (name, o) :: rest =>
    if described.any (·.1 == name) then
      applyAll (described.map fun (n, p) => if n == name then (n, o.apply p) else (n, p)) rest
    else .error (.unknownOverride name)

end Override

/-- A type of entities. -/
structure EntityType where
  name : String
  query : SelectQuery
  anchor : String
  /-- What the IRIs of new entities begin with. -/
  namespaceIri : String
  properties : List Property
  synthesis : Synthesis

namespace EntityType

/-- The variable that stands for the entity: the one asked for, or the first projected one. -/
def anchorOf (q : SelectQuery) (anchor : Option String) : Except MappingError String :=
  match anchor.filter (!·.isEmpty), q.projected with
  | some name, _ => .ok name
  | none, name :: _ => .ok name
  | none, [] => .error .nothingProjected

/-- The type of a selection. -/
def ofQuery (name : String) (q : SelectQuery) (anchor : Option String) (namespaceIri : String)
    (hints : SchemaHints) (overrides : List (String × Override)) :
    Except MappingError EntityType := do
  let anchor ← anchorOf q anchor
  let analysis ← Analysis.derive q anchor hints
  analysis.requireUnambiguous
  let described ← Override.applyAll analysis.described overrides
  let synthesis ← Synthesis.ofVariables anchor described analysis.ambiguous
  return {
    name := name
    query := q
    anchor := anchor
    namespaceIri := namespaceIri
    properties := described.map fun (name, p) => Property.ofVariable name p
    synthesis := synthesis }

/-- The property of a name. -/
def property (t : EntityType) (name : String) : Except MappingError Property :=
  match t.properties.find? (·.name == name) with
  | some p => .ok p
  | none => .error (.unknownProperty t.name name)

/-- The text of a selection of all entities. -/
def allText (t : EntityType) : String :=
  t.query.declarations ++ t.query.body

/-- The text of a selection of the entities that satisfy a condition. -/
def selectedText (t : EntityType) (condition : String) : String :=
  t.query.declarations ++ "SELECT * WHERE \x7b \x7b " ++ t.query.body ++ " \x7d FILTER (" ++
    condition ++ ") \x7d"

/-- The text of a selection of one entity. -/
def oneText (t : EntityType) (iri : Term) : String :=
  t.query.declarations ++ "SELECT * WHERE \x7b VALUES ?" ++ t.anchor ++ " \x7b " ++ iri.n3 ++
    " \x7d \x7b " ++ t.query.body ++ " \x7d \x7d"

end EntityType

end EntityMapping
