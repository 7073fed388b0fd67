import EntityMapping.Entity.Type
import EntityMapping.Store
import EntityMapping.Violation

/-!
The state of an entity: the terms that each of its properties has.

A state is read from the rows of a result.  A property of a single value takes the first of its
values; that it has several, or none where it needs one, is a violation and no error.
-/

namespace EntityMapping

/-- What a property has: one term at most, or a set of terms. -/
inductive PropertyState where
  | single (value : Option Term)
  | several (values : List Term)
  deriving DecidableEq, Repr

namespace PropertyState

/-- The state of a property without values. -/
def none (p : Property) : PropertyState :=
  if p.isFunctional then .single .none else .several []

/-- The terms of a property. -/
def terms : PropertyState → List Term
  | .single value => value.toList
  | .several values => values

/-- The state with one more term; it replaces the term of a single value. -/
def insert (t : Term) : PropertyState → PropertyState
  | .single _ => .single (some t)
  | .several values => .several (t.insertInto values)

/-- The state without a term. -/
def erase (t : Term) : PropertyState → PropertyState
  | .single value => .single (value.filter (!t.same ·))
  | .several values => .several (t.eraseFrom values)

end PropertyState

/-- The state of an entity, by the names of its properties. -/
abbrev EntityState := List (String × PropertyState)

namespace EntityState

/-- The state of an entity without any values. -/
def none (properties : List Property) : EntityState :=
  properties.map fun p => (p.name, .none p)

/-- The state of a property. -/
def property (s : EntityState) (name : String) : PropertyState :=
  (s.lookup name).getD (.single .none)

/-- The terms of a property. -/
def terms (s : EntityState) (name : String) : List Term :=
  (s.property name).terms

/-- The state with that of one property replaced. -/
def set (s : EntityState) (name : String) (p : PropertyState) : EntityState :=
  s.map fun (n, q) => if n == name then (n, p) else (n, q)

/-- The state with one more term of a property. -/
def insert (s : EntityState) (name : String) (t : Term) : EntityState :=
  s.set name ((s.property name).insert t)

end EntityState

namespace Property

/-- The terms that rows bind for a property, each once, in order. -/
def valuesIn (p : Property) (rows : List Row) : List Term :=
  (rows.filterMap (·.term? p.name)).foldl (fun seen t => t.insertInto seen) []

/-- The state that rows give a property. -/
def stateIn (p : Property) (rows : List Row) : PropertyState :=
  if p.isFunctional then .single (p.valuesIn rows).head? else .several (p.valuesIn rows)

/-- The promise of a property that rows break. -/
def violationIn (p : Property) (uri : String) (rows : List Row) : Option Violation :=
  let count := (p.valuesIn rows).length
  if !p.isFunctional then none
  else if count > 1 then some (.multiple uri p.name count)
  else if count == 0 && !p.isNullable then some (.missing uri p.name)
  else none

end Property

namespace EntityType

/-- The state that rows give an entity. -/
def stateIn (t : EntityType) (rows : List Row) : EntityState :=
  t.properties.map fun p => (p.name, p.stateIn rows)

/-- The violations in the rows of an entity. -/
def violationsIn (t : EntityType) (uri : String) (rows : List Row) : List Violation :=
  t.properties.filterMap fun p => p.violationIn uri rows

/-- The IRI of the entity that a row is about; a row may be about none. -/
def subjectOf? (t : EntityType) (row : Row) : Option String :=
  match row.term? t.anchor with
  | some (.iri s) => some s
  | _ => none

/-- The IRIs of the entities that rows are about, in order of first appearance. -/
def subjectsIn (t : EntityType) (rows : List Row) : List String :=
  Sparql.Algebra.distinctNames (rows.filterMap t.subjectOf?)

/-- The rows about an entity. -/
def rowsAbout (t : EntityType) (uri : String) (rows : List Row) : List Row :=
  rows.filter fun row => t.subjectOf? row == some uri

end EntityType

end EntityMapping
