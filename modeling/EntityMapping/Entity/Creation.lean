import EntityMapping.Change
import EntityMapping.Entity.State

/-!
Creating an entity: from the values given to its first state and to the update that writes it.

Mandatory properties go into one insertion.  Every other value has an insertion of its own behind
it, so what is absent is never written.
-/

namespace EntityMapping

/-- Values by the names of properties, in the order in which they are given. -/
abbrev InitialValues := List (String × Value)

namespace InitialValues

/-- The value of a property, if there is one. -/
def value? (vs : InitialValues) (name : String) : Option Value :=
  match vs.lookup name with
  | some .nothing | none => none
  | some v => some v

end InitialValues

namespace Property

/-- The values that are given to a property which need not have one. -/
def supplied (p : Property) (v : Option Value) : Except MappingError (List Value) :=
  match v with
  | none => .ok []
  | some v =>
    if p.isNullable then .ok [v]
    else if !v.isTruthy then .ok []
    else
      match v with
      | .list items => .ok items
      | .entity _ _ => .error (.needsIterable p.name)
      | v => .error (if v.asText?.isSome then .needsIterable p.name else .notIterable v.typeName)

end Property

/-- A creation as far as it got: the state, and the updates in order. -/
structure Draft where
  state : EntityState
  updates : List String

namespace EntityType

/-- Refuses values for properties that do not exist or cannot be written. -/
def checkInitial (t : EntityType) : InitialValues → Except MappingError Unit
  | [] => .ok ()
  | (name, _) :: rest => do
    if !(← t.property name).isWritable then throw (.readOnlyInitial name)
    t.checkInitial rest

/-- Binds the mandatory properties in order. -/
def bindMandatory (t : EntityType) (vs : InitialValues) :
    List String → Template → EntityState → Except MappingError (Template × EntityState)
  | [], template, state => .ok (template, state)
  | name :: rest, template, state =>
    match vs.value? name with
    | none => .error (.mandatoryMissing t.name name)
    | some v => do
      let term ← (← t.property name).toTerm v
      t.bindMandatory vs rest (← template.setTerm name term) (state.insert name term)

/-- The update that adds one value of a property. -/
def additionText (t : EntityType) (uri name : String) (term : Term) :
    Except MappingError String := do
  let template := Template.ofText (← t.synthesis.initializer name)
  let template ← template.setIri t.anchor uri
  return (← template.setTerm name term).render

/-- Adds one value of a property to a draft. -/
def draftValue (t : EntityType) (uri : String) (p : Property) (d : Draft) (v : Value) :
    Except MappingError Draft := do
  let term ← p.toTerm v
  let text ← t.additionText uri p.name term
  return ⟨d.state.insert p.name term, d.updates ++ [text]⟩

/-- Adds the values of a property to a draft; mandatory properties are there already. -/
def draftProperty (t : EntityType) (uri : String) (vs : InitialValues) (d : Draft)
    (p : Property) : Except MappingError Draft := do
  if !p.isWritable || p.multiplicity == .one then return d
  (← p.supplied (vs.value? p.name)).foldlM (t.draftValue uri p) d

/-- The first state of an entity, and the update that writes it. -/
def draft (t : EntityType) (uri : String) (vs : InitialValues) : Except MappingError Draft := do
  let template := Template.ofText (← t.synthesis.creation)
  let template ← template.setIri t.anchor uri
  let (template, state) ←
    t.bindMandatory vs t.synthesis.mandatory template (EntityState.none t.properties)
  t.properties.foldlM (t.draftProperty uri vs) ⟨state, [template.render]⟩

end EntityType

end EntityMapping
