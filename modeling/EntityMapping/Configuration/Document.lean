import EntityMapping.Configuration.Validation
import EntityMapping.Entity.Type
import EntityMapping.Json.Reader

/-!
Mapping documents: the entity types of an application as a JSON text.
-/

namespace EntityMapping

/-- What a document says about one entity type. -/
structure EntityDocument where
  name : String
  query : String
  anchor : Option String
  namespaceIri : String
  prefixes : List (String × String)
  overrides : List (String × Override)
  hints : SchemaHints
  deriving DecidableEq, Repr

/-- A mapping document. -/
structure MappingDocument where
  entities : List EntityDocument
  deriving DecidableEq, Repr

/-- An override of what the analysis finds. -/
def Override.check : Check Override :=
  Check.model fun path members =>
    (Checked.both (Check.withDefault members "datatype" none (.nullable .text) path)
      (Check.withDefault members "multiplicity" none (.nullable (.choice Multiplicity.ofMark?))
        path)).map fun (datatype, multiplicity) => ⟨datatype, multiplicity⟩

/-- Knowledge about predicates. -/
def SchemaHints.check : Check SchemaHints :=
  Check.model fun path members =>
    (Checked.both (Check.withDefault members "one_to_many" [] (.list .text) path)
      (Checked.both (Check.withDefault members "entity_ranges" [] (.dictionary .text) path)
        (Check.withDefault members "literal_ranges" [] (.dictionary .text) path))).map
    fun (oneToMany, entityRanges, literalRanges) => ⟨oneToMany, entityRanges, literalRanges⟩

namespace EntityDocument

/-- What is said about one entity type. -/
def check : Check EntityDocument :=
  Check.model fun path members =>
    let name := Check.required members "name" .text path
    let query := Check.required members "query" .text path
    let anchor := Check.withDefault members "anchor" none (.nullable .text) path
    let namespaceIri := Check.withDefault members "namespace" "" .text path
    let prefixes := Check.withDefault members "prefixes" [] (.dictionary .text) path
    let overrides := Check.withDefault members "properties" [] (.dictionary Override.check) path
    let hints := Check.withDefault members "hints" SchemaHints.none SchemaHints.check path
    (Checked.both name (Checked.both query (Checked.both anchor (Checked.both namespaceIri
      (Checked.both prefixes (Checked.both overrides hints)))))).map
    fun (name, query, anchor, namespaceIri, prefixes, overrides, hints) =>
      ⟨name, query, anchor, namespaceIri, prefixes, overrides, hints⟩

/-- The entity type that is described. -/
def entityType (d : EntityDocument) : Except MappingError EntityType := do
  let q ← SelectQuery.read d.prefixes d.query
  EntityType.ofQuery d.name q d.anchor d.namespaceIri d.hints d.overrides

end EntityDocument

namespace MappingDocument

/-- A whole document. -/
def check : Check MappingDocument :=
  Check.model fun path members =>
    (Check.required members "entities" (.list EntityDocument.check) path).map fun es => ⟨es⟩

/-- Reads a document. -/
def read (s : String) : Checked MappingDocument :=
  match Json.read s with
  | some j => check [] j
  | none => Check.issue [] .malformed

/-- The first entity of a name. -/
def entity? (d : MappingDocument) (name : String) : Option EntityDocument :=
  d.entities.find? (·.name == name)

/-- The document as JSON. -/
def toJson (d : MappingDocument) : Json :=
  let texts (members : List (String × String)) : Json :=
    .object (members.map fun (n, s) => (n, .string s))
  let optional (s : Option String) : Json := s.elim .null .string
  let override (o : Override) : Json :=
    .object [("datatype", optional o.datatype),
      ("multiplicity", optional (o.multiplicity.map Multiplicity.mark))]
  let entity (e : EntityDocument) : Json :=
    .object [("name", .string e.name), ("query", .string e.query), ("anchor", optional e.anchor),
      ("namespace", .string e.namespaceIri), ("prefixes", texts e.prefixes),
      ("properties", .object (e.overrides.map fun (n, o) => (n, override o))),
      ("hints", .object [("one_to_many", .array (e.hints.oneToMany.map .string)),
        ("entity_ranges", texts e.hints.entityRanges),
        ("literal_ranges", texts e.hints.literalRanges)])]
  .object [("entities", .array (d.entities.map entity))]

end MappingDocument

end EntityMapping
