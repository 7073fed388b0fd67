import EntityMapping.Cache
import EntityMapping.Entity
import EntityMapping.Identifier
import EntityMapping.Journal

/-!
Sessions: units of work over a store.

A session keeps every entity that it ever handed out, by number.  Entities with changes in the
journal are dirty: they are pinned in the cache, so that loading one of them again gives the entity
with its pending values.  An entity that changes while a commit is on its way is dirty again, for
the next commit.
-/

namespace EntityMapping

/-- The number of an entity in its session. -/
abbrev EntityId := Nat

/-- A session over a store of a given kind of state. -/
structure Session (σ : Type) where
  store : σ
  /-- The types by which references are resolved. -/
  types : List EntityType
  journal : Journal
  cache : Cache (String × String) EntityId
  entities : List Entity
  dirty : List EntityId
  /-- The entities that changed since the commit under way began. -/
  redirtied : List EntityId
  listeners : Listeners
  /-- Who was told of which violation, in order. -/
  heard : List (String × Violation)
  suffixes : Suffixes
  /-- How often the session was closed. -/
  closings : Nat

namespace Session

variable {σ : Type}

/-- A session in which nothing has happened. -/
def ofStore (store : σ) (suffixes : Suffixes) (cacheSize : Nat) : Session σ where
  store := store
  types := []
  journal := .empty
  cache := .ofSize cacheSize
  entities := []
  dirty := []
  redirtied := []
  listeners := []
  heard := []
  suffixes := suffixes
  closings := 0

/-- The list with a number in it. -/
def withId (ids : List EntityId) (id : EntityId) : List EntityId :=
  if ids.contains id then ids else ids ++ [id]

/-- Registers a type; it replaces one of the same name. -/
def register (s : Session σ) (t : EntityType) : Session σ :=
  { s with types := s.types.filter (·.name != t.name) ++ [t] }

/-- The registered type of a name. -/
def type? (s : Session σ) (name : String) : Option EntityType :=
  s.types.find? (·.name == name)

/-- The entity of a number. -/
def entity? (s : Session σ) (id : EntityId) : Option Entity :=
  s.entities[id]?

/-- The session with an entity changed. -/
def setEntity (s : Session σ) (id : EntityId) (e : Entity) : Session σ :=
  { s with entities := s.entities.set id e }

/-- Whether an entity has changes in the journal. -/
def isDirty (s : Session σ) (id : EntityId) : Bool :=
  s.dirty.contains id

/-- The cached entity of a type and an IRI; finding one counts as a use. -/
def cached (s : Session σ) (t : EntityType) (uri : String) : Option EntityId × Session σ :=
  let (found, cache) := s.cache.get (t.name, uri)
  (found, { s with cache := cache })

/-- Keeps a new entity, in the cache too. -/
def addEntity (s : Session σ) (e : Entity) : EntityId × Session σ :=
  let id := s.entities.length
  (id, { s with
    entities := s.entities ++ [e]
    cache := s.cache.put e.key (some id) false })

/-- Pins an entity in the cache.  If the cache holds another entity of the same key, or none, this
one takes the place. -/
def pinEntity (cache : Cache (String × String) EntityId) (key : String × String)
    (id : EntityId) : Cache (String × String) EntityId :=
  let (found, touched) := cache.get key
  if found = some id then (touched.pin? key).getD touched
  else touched.put key (some id) true

/-- Marks an entity as one with changes in the journal. -/
def markDirty (s : Session σ) (id : EntityId) : Session σ :=
  match s.entity? id with
  | none => s
  | some e =>
    { s with
      cache := pinEntity s.cache e.key id
      dirty := withId s.dirty id
      redirtied := if s.journal.committing then withId s.redirtied id else s.redirtied }

/-- Puts a change into the journal and marks its entity. -/
def record (s : Session σ) (id : EntityId) (c : Change) : Session σ :=
  { s with journal := s.journal.append c }.markDirty id

/-- Takes the pin of an entity away; a deleted one leaves the cache. -/
def release (s : Session σ) (e : Entity) : Session σ :=
  { s with cache := if e.deleted then s.cache.discard e.key else s.cache.unpin e.key }

/-- Takes an entity for one without changes whose values the store holds. -/
def markCommitted (s : Session σ) (id : EntityId) : Session σ :=
  match s.entity? id with
  | none => s
  | some e =>
    ({ s with dirty := s.dirty.filter (· ≠ id) }.release e).setEntity id
      (e.markCommitted e.values)

/-- Tells the listeners of a violation. -/
def notify (s : Session σ) (v : Violation) : Session σ :=
  let (told, listeners) := s.listeners.notify v
  { s with heard := s.heard ++ told, listeners := listeners }

/-- What is worth a warning when a session is closed: changes that were never committed. -/
def closingWarning (s : Session σ) : Option String :=
  if s.journal.changes.isEmpty then none
  else some ("Closing session with " ++ toString s.journal.changes.length ++
    " uncommitted change(s)")

/-- Closes the session with its store. -/
def close (s : Session σ) : Session σ :=
  { s with closings := s.closings + 1 }

end Session

end EntityMapping
