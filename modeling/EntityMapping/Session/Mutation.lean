import EntityMapping.Entity.Creation
import EntityMapping.Session.Basic

/-!
Mutations through a session: every one that is not refused puts one change into the journal and
makes its entity dirty.  A mutation that is refused leaves no trace, except that a refused creation
may use up an identifier.
-/

namespace EntityMapping

namespace Session

variable {σ : Type}

/-- Carries out a mutation of one entity. -/
def mutate (s : Session σ) (id : EntityId)
    (f : Entity → Except MappingError (Option (Entity × Change))) :
    Except MappingError (Session σ) :=
  match s.entity? id with
  | none => .ok s
  | some e => do
    match ← f e with
    | none => return s
    | some (after, change) => return (s.setEntity id after).record id change

/-- Sets or unsets a property of a single value. -/
def set (s : Session σ) (id : EntityId) (name : String) (v : Value) :
    Except MappingError (Session σ) :=
  s.mutate id fun e => e.set name v

/-- Adds a value to a property of many. -/
def add (s : Session σ) (id : EntityId) (name : String) (v : Value) :
    Except MappingError (Session σ) :=
  s.mutate id fun e => (e.add name v).map some

/-- Removes a value from a property of many. -/
def remove (s : Session σ) (id : EntityId) (name : String) (v : Value) :
    Except MappingError (Session σ) :=
  s.mutate id fun e => (e.remove name v).map some

/-- Deletes an entity. -/
def delete (s : Session σ) (id : EntityId) : Except MappingError (Session σ) :=
  s.mutate id fun e => e.delete.map some

/-- Whether a value is an entity that is deleted. -/
def isDeleted (s : Session σ) : Value → Bool
  | .entity id _ => (s.entity? id).any Entity.deleted
  | _ => false

/-- Redirects an entity to another one or to an IRI. -/
def redirect (s : Session σ) (id : EntityId) (target : Value) : Except MappingError (Session σ) :=
  s.mutate id fun e => (e.redirect target (s.isDeleted target)).map some

/-- Takes an entity back to its last committed state, without touching the journal. -/
def revert (s : Session σ) (id : EntityId) : Session σ :=
  match s.entity? id with
  | none => s
  | some e => s.setEntity id e.revert

/-- Keeps a created entity and records its creation. -/
def keepCreated (s : Session σ) (t : EntityType) (uri : String) (d : Draft) :
    EntityId × Session σ :=
  let (id, s) := s.addEntity (Entity.created t uri d.state)
  (id, s.record id (.create uri (Change.separator.intercalate d.updates)))

/-- Creates an entity with a fresh IRI. -/
def create (s : Session σ) (t : EntityType) (values : InitialValues) :
    Except MappingError EntityId × Session σ :=
  match t.checkInitial values with
  | .error e => (.error e, s)
  | .ok () =>
    let (suffix, suffixes) := s.suffixes.next
    let s := { s with suffixes := suffixes }
    let uri := t.namespaceIri ++ t.anchor ++ suffix
    match t.draft uri values with
    | .error e => (.error e, s)
    | .ok d =>
      let (id, s) := s.keepCreated t uri d
      (.ok id, s)

end Session

end EntityMapping
