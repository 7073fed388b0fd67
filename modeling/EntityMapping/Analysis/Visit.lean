import EntityMapping.MappingError
import EntityMapping.Pattern

/-!
The walk over a pattern.

Every triple is visited once, in order, together with the optional parts it lies in.  An optional
part is known by the number under which the walk entered it, so equal parts at different places
differ.  The walk stops at the first thing it cannot reason about.
-/

namespace EntityMapping

open Sparql (Path TriplePattern)

/-- A triple as the walk meets it: its terms, its predicate, and the optional parts around it from
the outside in. -/
structure Visit where
  context : List Nat
  subject : Term
  predicate : String
  object : Term
  deriving DecidableEq, Repr

/-- A predicate that links two variables, in an optional part or outside all of them. -/
structure Dependency where
  subject : String
  predicate : String
  object : String
  isOptional : Bool
  deriving DecidableEq, Repr

namespace Dependency

/-- The text of a dependency. -/
def text (d : Dependency) : String :=
  "?" ++ d.subject ++ " <" ++ d.predicate ++ "> ?" ++ d.object ++
    (if d.isOptional then " (optional)" else "")

end Dependency

namespace Visit

/-- The visit of one triple; its predicate has to be an IRI. -/
def ofTriple (context : List Nat) (t : TriplePattern) : Except MappingError Visit :=
  match t.predicate with
  | .step (.iri p) => .ok ⟨context, t.subject, p, t.object⟩
  | .step (.var name) => .error (.variablePredicate name t.subject.n3 t.object.n3)
  | other => .error (.propertyPath other.n3)

mutual

/-- The visits of a pattern inside the optional parts of `context`, of which `next` is the number
of the next one to be entered; and the number after those entered on the way. -/
def ofPattern (context : List Nat) (next : Nat) : Pattern → Except MappingError (List Visit × Nat)
  | .basic ts => do return (← ts.mapM (ofTriple context), next)
  | .group children => ofPatterns context next children
  | .optional child => ofPattern (context ++ [next]) (next + 1) child
  | .union _ => .error .unionPattern
  | .unsupported element => .error (.unsupportedConstruct element)
  | .foreign text => .error (.foreignPattern text)

/-- The visits of several patterns in order. -/
def ofPatterns (context : List Nat) (next : Nat) :
    List Pattern → Except MappingError (List Visit × Nat)
  | [] => .ok ([], next)
  | p :: rest => do
    let (visits, next) ← ofPattern context next p
    let (others, next) ← ofPatterns context next rest
    return (visits ++ others, next)

end

/-- All visits of a pattern. -/
def all (p : Pattern) : Except MappingError (List Visit) :=
  (ofPattern [] 0 p).map Prod.fst

/-- Whether the triple has the variable as its object. -/
def hasObject (name : String) (v : Visit) : Bool :=
  v.object == .var name

/-- Whether the triple has the variable as its subject. -/
def hasSubject (name : String) (v : Visit) : Bool :=
  v.subject == .var name

/-- Whether the triple has the variable as its subject or object. -/
def mentions (name : String) (v : Visit) : Bool :=
  v.hasSubject name || v.hasObject name

/-- The link between two variables that the triple makes. -/
def dependency? (v : Visit) : Option Dependency :=
  match v.subject, v.object with
  | .var s, .var o => some ⟨s, v.predicate, o, !v.context.isEmpty⟩
  | _, _ => none

/-- The links between variables, each once. -/
def dependencies (visits : List Visit) : List Dependency :=
  (visits.filterMap dependency?).eraseDups

end Visit

end EntityMapping
