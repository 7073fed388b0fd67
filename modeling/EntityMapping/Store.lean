import EntityMapping.StoreError
import EntityMapping.Term.Basic

/-!
Stores: what entities need from a place where triples are kept.

A store answers selections and applies updates.  Every request may change the state of the store,
also one that is refused.
-/

namespace EntityMapping

/-- One row of a result: every projected name with its term, if it is bound. -/
abbrev Row := List (String × Option Term)

namespace Row

/-- The term of a name in a row; a name that the row does not have is unbound. -/
def term? (r : Row) (name : String) : Option Term :=
  (r.lookup name).join

end Row

/-- What a state has to offer to serve as a store. -/
class GraphStore (σ : Type) where
  /-- The rows of a selection in the order of the result. -/
  query : String → σ → Except StoreError (List Row) × σ
  /-- Applies an update as a whole or not at all. -/
  update : String → σ → Except StoreError Unit × σ

end EntityMapping
