import EntityMapping.Template

/-!
Changes: one intended mutation each, and the update that carries it out.

A change of value removes the old triple only where it is there, so an outdated old value does no
harm.  A redirection first moves all references to the new entity and then drops what the old one
says.
-/

namespace EntityMapping

/-- A mutation that waits to be carried out. -/
inductive Change where
  | add (uri predicate : String) (value : Term)
  | remove (uri predicate : String) (value : Term)
  | replace (uri predicate : String) (old new : Term)
  /-- A creation brings its finished update along. -/
  | create (uri update : String)
  | delete (uri : String)
  | redirect (oldUri newUri : String)
  deriving DecidableEq, Repr

namespace Change

/-- The name of a kind of change. -/
def kindName : Change → String
  | .add .. => "property_add"
  | .remove .. => "property_remove"
  | .replace .. => "property_change"
  | .create .. => "create_entity"
  | .delete _ => "delete_entity"
  | .redirect .. => "redirect_delete"

/-- The entity that a change belongs to. -/
def subject : Change → String
  | .add uri _ _ => uri
  | .remove uri _ _ => uri
  | .replace uri _ _ _ => uri
  | .create uri _ => uri
  | .delete uri => uri
  | .redirect oldUri _ => oldUri

/-- What stands between two updates of one request. -/
def separator : String := " ;\n"

/-- The template of an addition. -/
def addText : String := "INSERT DATA \x7b ?s ?p ?o \x7d"

/-- The template of a removal. -/
def removeText : String := "DELETE DATA \x7b ?s ?p ?o \x7d"

/-- The template of a change of value. -/
def replaceText : String :=
  "DELETE \x7b ?s ?p ?o \x7d WHERE \x7b ?s ?p ?o \x7d" ++ separator ++
    "INSERT DATA \x7b ?s ?p ?n \x7d"

/-- The template of a deletion: all triples of the entity, as subject and as object. -/
def deleteText : String :=
  "DELETE WHERE \x7b ?a ?b ?c \x7d" ++ separator ++ "DELETE WHERE \x7b ?d ?e ?a \x7d"

/-- The template of a redirection. -/
def redirectText : String :=
  "DELETE \x7b ?s ?p ?old \x7d INSERT \x7b ?s ?p ?new \x7d WHERE \x7b ?s ?p ?old \x7d" ++
    separator ++ "DELETE WHERE \x7b ?old ?b ?c \x7d"

/-- The update of a change. -/
def update : Change → Except MappingError String
  | .add uri predicate value => do
    let t ← (Template.ofText addText).setIri "s" uri
    let t ← t.setIri "p" predicate
    return (← t.setTerm "o" value).render
  | .remove uri predicate value => do
    let t ← (Template.ofText removeText).setIri "s" uri
    let t ← t.setIri "p" predicate
    return (← t.setTerm "o" value).render
  | .replace uri predicate old new => do
    let t ← (Template.ofText replaceText).setIri "s" uri
    let t ← t.setIri "p" predicate
    let t ← t.setTerm "o" old
    return (← t.setTerm "n" new).render
  | .create _ update => .ok update
  | .delete uri => do return (← (Template.ofText deleteText).setIri "a" uri).render
  | .redirect oldUri newUri => do
    let t ← (Template.ofText redirectText).setIri "old" oldUri
    return (← t.setIri "new" newUri).render

/-- The updates of several changes as one request, in order. -/
def combine (changes : List Change) : Except MappingError String := do
  return separator.intercalate (← changes.mapM update)

end Change

end EntityMapping
