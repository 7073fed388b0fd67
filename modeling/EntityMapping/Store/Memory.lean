import EntityMapping.Graph.Lines
import EntityMapping.Graph.Turtle
import EntityMapping.Sparql.Grammar.Updates
import EntityMapping.Store

/-!
A store that keeps its graph in memory.

Prefixes that loaded texts declare stay with the store: later requests may use them without
declaring them.  An update that cannot be read leaves the store as it was.
-/

namespace EntityMapping

open Sparql (Algebra Prologue Query Solution Update)

/-- A graph with its prefixes.  `updates` counts the updates applied, and `serial` the loads and
updates, so that each of them has blank nodes of its own. -/
structure MemoryStore where
  graph : Graph
  prefixes : List (String × String)
  updates : Nat
  serial : Nat
  deriving Repr

namespace MemoryStore

/-- A store without triples. -/
def empty : MemoryStore :=
  ⟨[], Prologue.wellKnown, 0, 0⟩

/-- The declarations in force before a request says anything. -/
def prologue (m : MemoryStore) : Prologue :=
  ⟨none, m.prefixes⟩

/-- The first of the numbered variants of a prefix, from `n` on, that is free or already stands
for the namespace. -/
def variantFrom (prefixes : List (String × String)) (label namespaceIri : String) :
    (fuel : Nat) → (n : Nat) → String
  | 0, n => label ++ toString n
  | fuel + 1, n =>
    match prefixes.lookup (label ++ toString n) with
    | none => label ++ toString n
    | some other =>
      if other == namespaceIri then label ++ toString n
      else variantFrom prefixes label namespaceIri fuel (n + 1)

/-- Keeps a prefix that a loaded text declares.  If it stands for another namespace already, the
new one gets a numbered variant. -/
def keepPrefix (prefixes : List (String × String)) (label namespaceIri : String) :
    List (String × String) :=
  let declare (l : String) := ((⟨none, prefixes⟩ : Prologue).declare l namespaceIri).prefixes
  match prefixes.lookup label with
  | none => declare label
  | some other =>
    if other == namespaceIri then prefixes
    else
      let stem := if label.isEmpty then "default" else label
      let chosen := variantFrom prefixes stem namespaceIri prefixes.length 1
      if (prefixes.lookup chosen).isSome then prefixes else declare chosen

/-- Adds what was read from a text.  Prefixes are kept only if the whole text was read. -/
def add (m : MemoryStore) (d : Document) : MemoryStore :=
  let d := d.withOwnBlanks m.serial
  { m with
    graph := m.graph.insertAll d.triples
    prefixes :=
      if d.complete then d.prefixes.foldl (fun ps (l, n) => keepPrefix ps l n) m.prefixes
      else m.prefixes
    serial := m.serial + 1 }

/-- The row of a solution. -/
def row (names : List String) (s : Solution) : Row :=
  (Algebra.distinctNames names).map fun name => (name, s.term? name)

/-- The rows of a selection.  A solution that binds none of the projected names has no row. -/
def rows (m : MemoryStore) (pattern : Algebra) (names : List String) : List Row :=
  ((pattern.answers m.graph Solution.empty).filter fun s => names.any s.binds).map (row names)

/-- The answer to a query. -/
def select (m : MemoryStore) (text : String) : Except StoreError (List Row) :=
  match Query.read m.prologue text with
  | some (.select pattern names) => .ok (m.rows pattern names)
  | some .ask => .error (.notSelection "ASK")
  | some .construct => .error (.notSelection "CONSTRUCT")
  | some .describe => .error (.notSelection "DESCRIBE")
  | none => .error .queryFailed

/-- The store after an update. -/
def apply (m : MemoryStore) (text : String) : Except StoreError MemoryStore :=
  match Update.read m.prologue text with
  | some update =>
    .ok { m with
      graph := update.run m.serial m.graph
      updates := m.updates + 1
      serial := m.serial + 1 }
  | none => .error .updateFailed

instance : GraphStore MemoryStore where
  query text m := (m.select text, m)
  update text m :=
    match m.apply text with
    | .ok after => (.ok (), after)
    | .error e => (.error e, m)

end MemoryStore

end EntityMapping
