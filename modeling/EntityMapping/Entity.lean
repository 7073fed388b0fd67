import EntityMapping.Change
import EntityMapping.Entity.State

/-!
Entities and what can be done to one of them.

An entity knows the state that the store is believed to hold beside its current one.  Every
mutation either is refused, and then nothing happens, or gives the entity as it is afterwards with
exactly one change for the journal.
-/

namespace EntityMapping

/-- An entity. -/
structure Entity where
  type : EntityType
  uri : String
  values : EntityState
  /-- The state at the last commit, or when the entity was loaded. -/
  committed : EntityState
  /-- Whether the entity was created and never committed. -/
  isNew : Bool
  deleted : Bool

namespace Entity

/-- An entity with a state that the store holds. -/
def loaded (type : EntityType) (uri : String) (values : EntityState) : Entity :=
  ⟨type, uri, values, values, false, false⟩

/-- An entity that was just created. -/
def created (type : EntityType) (uri : String) (values : EntityState) : Entity :=
  ⟨type, uri, values, values, true, false⟩

/-- What tells the entity from others: the name of its type and its IRI. -/
def key (e : Entity) : String × String :=
  (e.type.name, e.uri)

/-- The text of an entity in messages. -/
def text (e : Entity) : String :=
  "<" ++ e.type.name ++ " " ++ e.uri ++ (if e.deleted then " deleted" else "") ++ ">"

/-- The entity with a state that the store holds now. -/
def markCommitted (e : Entity) (state : EntityState) : Entity :=
  { e with committed := state, isNew := false }

/-- The entity as it was at the last commit; one that never was is deleted. -/
def revert (e : Entity) : Entity :=
  { e with values := e.committed, deleted := e.isNew }

/-- The entity with a state that was just loaded. -/
def refresh (e : Entity) (state : EntityState) : Entity :=
  { e with values := state, committed := state }

/-- The property of a name, with its predicate, if it can be written now. -/
def writable (e : Entity) (name : String) : Except MappingError (Property × String) := do
  let p ← e.type.property name
  if e.deleted then throw (.setOnDeleted name e.uri)
  match p.predicate with
  | some predicate => return (p, predicate)
  | none => throw (.readOnly name)

/-- Sets or unsets a property of a single value.  Nothing is returned where an unset property is
unset again. -/
def set (e : Entity) (name : String) (v : Value) :
    Except MappingError (Option (Entity × Change)) := do
  let (p, predicate) ← e.writable name
  if !p.isFunctional then throw (.multiValued name)
  let old := (e.values.terms name).head?
  let holding (value : Option Term) : Entity :=
    { e with values := e.values.set name (.single value) }
  match v, old with
  | .nothing, _ =>
    if !p.isNullable then throw (.mandatoryUnset name e.uri)
    return old.map fun t => (holding none, .remove e.uri predicate t)
  | v, none =>
    let new ← p.termFor v []
    return some (holding (some new), .add e.uri predicate new)
  | v, some t =>
    let new ← p.termFor v [t]
    return some (holding (some new), .replace e.uri predicate t new)

/-- Adds a value to a property of many. -/
def add (e : Entity) (name : String) (v : Value) : Except MappingError (Entity × Change) := do
  let (p, predicate) ← e.writable name
  if p.isFunctional then throw (.singleValuedAdd name)
  let stored := e.values.terms name
  let t ← p.termFor v stored
  return ({ e with values := e.values.set name (.several (t.insertInto stored)) },
    .add e.uri predicate t)

/-- Removes a value from a property of many. -/
def remove (e : Entity) (name : String) (v : Value) : Except MappingError (Entity × Change) := do
  let (p, predicate) ← e.writable name
  if p.isFunctional then throw (.singleValuedRemove name)
  let stored := e.values.terms name
  let t ← p.termFor v stored
  return ({ e with values := e.values.set name (.several (t.eraseFrom stored)) },
    .remove e.uri predicate t)

/-- Deletes the entity with everything that mentions it. -/
def delete (e : Entity) : Except MappingError (Entity × Change) := do
  if e.deleted then throw (.actionOnDeleted "delete" e.uri)
  return ({ e with deleted := true }, .delete e.uri)

/-- Where a redirection may go: to an entity that is not deleted, or to an IRI. -/
def redirectTarget (v : Value) (isDeleted : Bool) : Except MappingError String :=
  match v with
  | .entity _ uri => if isDeleted then .error (.redirectToDeleted uri) else .ok uri
  | v => (checkIri v.text).map Term.plainText

/-- Moves all references to another entity, and deletes this one. -/
def redirect (e : Entity) (v : Value) (isDeleted : Bool) :
    Except MappingError (Entity × Change) := do
  if e.deleted then throw (.actionOnDeleted "redirect" e.uri)
  let target ← redirectTarget v isDeleted
  if target == e.uri then throw (.redirectToItself e.uri)
  return ({ e with deleted := true }, .redirect e.uri target)

end Entity

end EntityMapping
