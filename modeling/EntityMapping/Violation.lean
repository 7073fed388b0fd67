/-!
Violations of what a property promises, and those who want to hear of them.

Data that break a promise can be loaded all the same; listeners are told, in the order in which
they were added.
-/

namespace EntityMapping

/-- How data can break the promise of a property. -/
inductive ViolationKind where
  /-- A mandatory property has no value. -/
  | missingValue
  /-- A property of a single value has several. -/
  | multipleValues
  deriving DecidableEq, Repr

namespace ViolationKind

/-- The name of a kind. -/
def name : ViolationKind → String
  | .missingValue => "missing_value"
  | .multipleValues => "multiple_values"

/-- The kind of a name. -/
def ofName? (s : String) : Option ViolationKind :=
  [.missingValue, .multipleValues].find? fun kind => kind.name == s

end ViolationKind

/-- One violation. -/
structure Violation where
  kind : ViolationKind
  entityUri : String
  property : String
  message : String
  deriving DecidableEq, Repr

namespace Violation

/-- The text of a violation. -/
def text (v : Violation) : String :=
  v.kind.name ++ " on <" ++ v.entityUri ++ ">." ++ v.property ++ ": " ++ v.message

/-- A property of a single value was found with several. -/
def multiple (entityUri property : String) (count : Nat) : Violation :=
  ⟨.multipleValues, entityUri, property,
    toString count ++ " distinct values for functional property"⟩

/-- A mandatory property was found without value. -/
def missing (entityUri property : String) : Violation :=
  ⟨.missingValue, entityUri, property, "mandatory property is unbound"⟩

end Violation

/-- One who wants to hear of violations, for good or only once. -/
structure Listener where
  name : String
  once : Bool
  deriving DecidableEq, Repr

/-- Listeners in the order in which they were added. -/
abbrev Listeners := List Listener

namespace Listeners

/-- Adds a listener unless it is there already. -/
def add (ls : Listeners) (l : Listener) : Listeners :=
  if ls.contains l then ls else ls ++ [l]

/-- Removes a listener. -/
def remove (ls : Listeners) (l : Listener) : Listeners :=
  ls.erase l

/-- Tells all listeners of a violation: who was told what, and who is still there afterwards. -/
def notify (ls : Listeners) (v : Violation) : List (String × Violation) × Listeners :=
  (ls.map fun l => (l.name, v), ls.filter fun l => !l.once)

end Listeners

end EntityMapping
