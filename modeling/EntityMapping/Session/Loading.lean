import EntityMapping.Session.Basic

/-!
Loading entities, and reading their properties.

A load groups the rows of a result by entity.  An entity that is in the cache already is refreshed,
unless it has changes of its own, and is the one that is returned.
-/

namespace EntityMapping

/-- What reading a property gives. -/
inductive PropertyValue where
  | single (v : Value)
  | several (vs : List Value)
  deriving Repr

namespace Session

variable {σ : Type}

/-- The session with an entity refreshed, unless it has changes of its own. -/
def refresh (s : Session σ) (id : EntityId) (state : EntityState) : Session σ :=
  if s.isDirty id then s
  else
    match s.entity? id with
    | none => s
    | some e => s.setEntity id (e.refresh state)

/-- The entity of rows that are about one IRI. -/
def instantiate (s : Session σ) (t : EntityType) (uri : String) (rows : List Row) :
    EntityId × Session σ :=
  let s := (t.violationsIn uri rows).foldl notify s
  match s.cached t uri with
  | (some id, s) => (id, s.refresh id (t.stateIn rows))
  | (none, s) => s.addEntity (Entity.loaded t uri (t.stateIn rows))

/-- The entities of rows, for some IRIs in order. -/
def instantiateAll (s : Session σ) (t : EntityType) (rows : List Row) :
    List String → List EntityId × Session σ
  | [] => ([], s)
  | uri :: rest =>
    let (id, s) := s.instantiate t uri (t.rowsAbout uri rows)
    let (ids, s) := s.instantiateAll t rows rest
    (id :: ids, s)

/-- The entities of rows, in order of first appearance. -/
def ofRows (s : Session σ) (t : EntityType) (rows : List Row) : List EntityId × Session σ :=
  s.instantiateAll t rows (t.subjectsIn rows)

variable [GraphStore σ]

/-- Asks the store. -/
def ask (s : Session σ) (text : String) : Except StoreError (List Row) × Session σ :=
  let (answer, store) := GraphStore.query text s.store
  (answer, { s with store := store })

/-- The entities that a selection gives. -/
def loadText (s : Session σ) (t : EntityType) (text : String) :
    Except MappingError (List EntityId) × Session σ :=
  match s.ask text with
  | (.error e, s) => (.error (.store e), s)
  | (.ok rows, s) =>
    let (ids, s) := s.ofRows t rows
    (.ok ids, s)

/-- All entities of a type. -/
def loadAll (s : Session σ) (t : EntityType) : Except MappingError (List EntityId) × Session σ :=
  s.loadText t t.allText

/-- The entities of a type that satisfy a condition. -/
def loadSelected (s : Session σ) (t : EntityType) (condition : String) :
    Except MappingError (List EntityId) × Session σ :=
  s.loadText t (t.selectedText condition)

/-- The entity of an IRI, if there is one.  A cached entity needs no query. -/
def load (s : Session σ) (t : EntityType) (uri : String) :
    Except MappingError (Option EntityId) × Session σ :=
  match s.cached t uri with
  | (some id, s) => (.ok (some id), s)
  | (none, s) =>
    match checkIri uri with
    | .error e => (.error e, s)
    | .ok iri =>
      let (ids, s) := s.loadText t (t.oneText iri)
      (ids.map List.head?, s)

/-- The entity of an IRI as one of a registered type. -/
def resolve (s : Session σ) (typeName uri : String) :
    Except MappingError (Option EntityId) × Session σ :=
  match s.type? typeName with
  | none => (.ok none, s)
  | some t => s.load t uri

/-- The value of an entity. -/
def entityValue (s : Session σ) (id : EntityId) : Value :=
  .entity id ((s.entity? id).elim "" Entity.uri)

/-- The value of a stored term.  A reference is resolved where that is possible. -/
def decode (s : Session σ) (p : Property) (t : Term) : Except MappingError Value × Session σ :=
  match p.kind with
  | .literal => (.ok (.ofTerm t), s)
  | .object =>
    match s.resolve p.datatype t.plainText with
    | (.error e, s) => (.error e, s)
    | (.ok (some id), s) => (.ok (s.entityValue id), s)
    | (.ok none, s) => (.ok (.term t), s)

/-- The values of several terms in order. -/
def decodeAll (s : Session σ) (p : Property) :
    List Term → Except MappingError (List Value) × Session σ
  | [] => (.ok [], s)
  | t :: rest =>
    match s.decode p t with
    | (.error e, s) => (.error e, s)
    | (.ok v, s) =>
      let (vs, s) := s.decodeAll p rest
      (vs.map (v :: ·), s)

/-- What decoded values of a property show. -/
def shown (p : Property) (vs : List Value) : PropertyValue :=
  if p.isFunctional then .single (vs.head?.getD .nothing) else .several (Value.distinct vs)

/-- Reads a property of an entity; references are resolved. -/
def get (s : Session σ) (id : EntityId) (name : String) :
    Except MappingError PropertyValue × Session σ :=
  match s.entity? id with
  | none => (.ok (.single .nothing), s)
  | some e =>
    match e.type.property name with
    | .error cause => (.error cause, s)
    | .ok p =>
      let (vs, s) := s.decodeAll p (e.values.terms name)
      (vs.map (shown p), s)

omit [GraphStore σ] in
/-- Reads a property of an entity as it is stored. -/
def getStored (s : Session σ) (id : EntityId) (name : String) :
    Except MappingError PropertyValue := do
  match s.entity? id with
  | none => return .single .nothing
  | some e =>
    let p ← e.type.property name
    return shown p ((e.values.terms name).map Value.ofTerm)

end Session

end EntityMapping
