/-!
Knowledge about predicates that a query alone cannot provide.
-/

namespace EntityMapping

/-- What is known about the predicates of a schema. -/
structure SchemaHints where
  /-- Predicates whose subjects may have many objects. -/
  oneToMany : List String
  /-- Predicates whose objects are entities, with the names of their types. -/
  entityRanges : List (String × String)
  /-- Predicates whose objects are literals, with their datatypes. -/
  literalRanges : List (String × String)
  deriving DecidableEq, Repr

namespace SchemaHints

/-- No knowledge at all. -/
def none : SchemaHints := ⟨[], [], []⟩

/-- Whether a subject may have many objects under the predicate. -/
def isOneToMany (h : SchemaHints) (predicate : String) : Bool :=
  h.oneToMany.contains predicate

/-- Whether the objects of the predicate are entities. -/
def hasEntityRange (h : SchemaHints) (predicate : String) : Bool :=
  (h.entityRanges.lookup predicate).isSome

/-- The type of the entities that the predicate leads to. -/
def entityRange? (h : SchemaHints) (predicate : String) : Option String :=
  h.entityRanges.lookup predicate

/-- The datatype of the literals that the predicate leads to. -/
def literalRange? (h : SchemaHints) (predicate : String) : Option String :=
  h.literalRanges.lookup predicate

end SchemaHints

end EntityMapping
