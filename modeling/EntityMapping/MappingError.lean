import EntityMapping.StoreError
import EntityMapping.Text.Quoted

/-!
What can go wrong in setting up a mapping and in using it.
-/

namespace EntityMapping

/-- The broad kinds of errors that callers tell apart. -/
inductive ErrorKind where
  /-- A text is no query of the language. -/
  | queryParse
  /-- A query uses a construct whose cardinality cannot be derived. -/
  | unsupportedPattern
  | unknownAnchor
  /-- A projected variable is never bound through a predicate. -/
  | unresolvedType
  | ambiguousBinding
  | unknownVariable
  | mutationOnDeleted
  | readOnlyProperty
  | missingValue
  | store
  /-- A value of the right type is not acceptable. -/
  | value
  /-- A value is of the wrong type. -/
  | type
  deriving DecidableEq, Repr

/-- The cause of a refusal. -/
inductive MappingError where
  | unparsableQuery
  | notSelection (form : String)
  | variablePredicate (name subject object : String)
  | propertyPath (path : String)
  | unionPattern
  | unsupportedConstruct (element : String)
  | foreignPattern (text : String)
  | severalPredicates (name : String) (predicates : List String)
  | unknownAnchor (name : String)
  | unresolvedType (name : String)
  | ambiguousBindings (names : List String)
  | noDescriptor (name : String)
  | notLinked (name anchor : String)
  | unknownOverride (name : String)
  | unknownProperty (typeName property : String)
  | invalidIri (text : String)
  | unbindableTerm (kind label slot : String)
  | notATerm (slot kind : String)
  | invalidTag (tag : String)
  | notAnIri (property kind : String)
  | notALiteral (property kind : String)
  | notIterable (kind : String)
  | needsIterable (property : String)
  | multiValued (property : String)
  | singleValuedAdd (property : String)
  | singleValuedRemove (property : String)
  | setOnDeleted (property uri : String)
  | actionOnDeleted (action uri : String)
  | redirectToDeleted (uri : String)
  | redirectToItself (uri : String)
  | readOnly (property : String)
  | readOnlyInitial (property : String)
  | mandatoryUnset (property uri : String)
  | mandatoryMissing (typeName property : String)
  | nothingProjected
  | store (cause : StoreError)
  deriving DecidableEq, Repr

namespace MappingError

/-- The kind of an error; a query that projects nothing has none of the kinds. -/
def kind : MappingError → Option ErrorKind
  | .unparsableQuery => some .queryParse
  | .notSelection _ | .variablePredicate .. | .propertyPath _ | .unionPattern
  | .unsupportedConstruct _ | .foreignPattern _ | .severalPredicates .. =>
    some .unsupportedPattern
  | .unknownAnchor _ => some .unknownAnchor
  | .unresolvedType _ => some .unresolvedType
  | .ambiguousBindings _ => some .ambiguousBinding
  | .noDescriptor _ | .notLinked .. | .unknownOverride _ | .unknownProperty .. =>
    some .unknownVariable
  | .invalidIri _ | .unbindableTerm .. | .invalidTag _ | .redirectToItself _ => some .value
  | .notATerm .. | .notAnIri .. | .notALiteral .. | .notIterable _ | .needsIterable _
  | .multiValued _ | .singleValuedAdd _ | .singleValuedRemove _ => some .type
  | .setOnDeleted .. | .actionOnDeleted .. | .redirectToDeleted _ => some .mutationOnDeleted
  | .readOnly _ | .readOnlyInitial _ => some .readOnlyProperty
  | .mandatoryUnset .. | .mandatoryMissing .. => some .missingValue
  | .nothingProjected => none
  | .store _ => some .store

/-- Names of variables with their marks, between commas. -/
def variableList (names : List String) : String :=
  ", ".intercalate (names.map ("?" ++ ·))

/-- IRIs in brackets, between commas. -/
def iriList (iris : List String) : String :=
  ", ".intercalate (iris.map fun iri => "<" ++ iri ++ ">")

/-- What an error says. -/
def message : MappingError → String
  | .unparsableQuery => "Cannot parse query"
  | .notSelection form => "Only SELECT queries can be mapped, got " ++ form
  | .variablePredicate name subject object =>
    "Variable ?" ++ name ++ " occurs in predicate position in '" ++ subject ++ " ?" ++ name ++
      " " ++ object ++ "'"
  | .propertyPath path => "Property paths are not supported: " ++ path
  | .unionPattern => "UNION blocks have no single provable cardinality"
  | .unsupportedConstruct element => "Unsupported query construct: " ++ element
  | .foreignPattern text => "Unknown pattern node: " ++ Text.quoted text
  | .severalPredicates name predicates =>
    "Variable ?" ++ name ++ " is linked to the anchor through several predicates: " ++
      iriList predicates
  | .unknownAnchor name =>
    "Anchor ?" ++ name ++ " is not a projected variable of the query"
  | .unresolvedType name =>
    "Variable ?" ++ name ++ " is never bound through a concrete predicate"
  | .ambiguousBindings names =>
    "Variables bound in sibling OPTIONAL blocks: " ++ variableList names
  | .noDescriptor name => "No descriptor for variable ?" ++ name
  | .notLinked name anchor =>
    "Variable ?" ++ name ++ " is not linked to ?" ++ anchor ++ " by a predicate"
  | .unknownOverride name => "Override for unknown variable ?" ++ name
  | .unknownProperty typeName property =>
    typeName ++ " has no property '" ++ property ++ "'"
  | .invalidIri text => "Invalid IRI: " ++ Text.quoted text
  | .unbindableTerm kind label slot =>
    "Cannot bind " ++ kind ++ " rdflib.term." ++ kind ++ "(" ++ Text.quoted label ++
      ") to slot ?" ++ slot
  | .notATerm slot kind => "Expected an RDF term for slot ?" ++ slot ++ ", got " ++ kind
  | .invalidTag tag => "Invalid language tag: " ++ Text.quoted tag
  | .notAnIri property kind =>
    "Property '" ++ property ++ "' expects an entity or IRI, got " ++ kind
  | .notALiteral property kind =>
    "Property '" ++ property ++ "' expects a literal value, got " ++ kind
  | .notIterable kind => "'" ++ kind ++ "' object is not iterable"
  | .needsIterable property =>
    "Property '" ++ property ++ "' is multi-valued; pass an iterable of values"
  | .multiValued property =>
    "Property '" ++ property ++ "' is multi-valued; use add() / remove()"
  | .singleValuedAdd property => "Property '" ++ property ++ "' is functional; use set()"
  | .singleValuedRemove property =>
    "Property '" ++ property ++ "' is functional; use set(name, None)"
  | .setOnDeleted property uri =>
    "Trying to set property '" ++ property ++ "' on deleted entity <" ++ uri ++ ">"
  | .actionOnDeleted action uri =>
    "Trying to " ++ action ++ " deleted entity <" ++ uri ++ ">"
  | .redirectToDeleted uri => "Cannot redirect to deleted entity <" ++ uri ++ ">"
  | .redirectToItself uri => "Cannot redirect <" ++ uri ++ "> to itself"
  | .readOnly property =>
    "Property '" ++ property ++ "' is not linked to the anchor by a predicate"
  | .readOnlyInitial property => "Property '" ++ property ++ "' cannot be initialized"
  | .mandatoryUnset property uri =>
    "Property '" ++ property ++ "' of <" ++ uri ++ "> cannot be unset"
  | .mandatoryMissing typeName property =>
    typeName ++ ".create() requires '" ++ property ++ "'"
  | .nothingProjected => "The query projects no variable"
  | .store cause => cause.message

end MappingError

end EntityMapping
