import EntityMapping.Term.N3

/-!
Triple patterns: triples whose subject or object may be a variable, and whose predicate may be a
property path.
-/

namespace EntityMapping.Sparql

/-- A property path; a plain predicate is the path of one step. -/
inductive Path where
  | step (t : Term)
  | inverse (p : Path)
  | sequence (parts : List Path)
  | alternative (parts : List Path)
  | repeated (p : Path) (mark : Char)
  | negated (parts : List Path)
  deriving Repr

namespace Path

/-- Paths one after the other; a sequence inside a sequence is spliced in. -/
def inSequence (parts : List Path) : Path :=
  match parts with
  | [p] => p
  | _ => .sequence (parts.flatMap fun p => match p with
    | .sequence inner => inner
    | other => [other])

/-- Paths to choose from; a choice inside a choice is spliced in. -/
def inAlternative (parts : List Path) : Path :=
  match parts with
  | [p] => p
  | _ => .alternative (parts.flatMap fun p => match p with
    | .alternative inner => inner
    | other => [other])

/-- A path that is put in parentheses inside another one. -/
def isCompound : Path → Bool
  | .sequence (_ :: _ :: _) | .alternative (_ :: _ :: _) => true
  | _ => false

mutual

/-- The written form of a path. -/
def n3 : Path → String
  | .step t => t.n3
  | .inverse p => "^" ++ enclosed p
  | .sequence parts => "/".intercalate (enclosedAll parts)
  | .alternative parts => "|".intercalate (enclosedAll parts)
  | .repeated p mark => enclosed p ++ mark.toString
  | .negated parts => "!(" ++ "|".intercalate (enclosedAll parts) ++ ")"

/-- The written form of a path inside another one. -/
def enclosed (p : Path) : String :=
  if p.isCompound then "(" ++ p.n3 ++ ")" else p.n3

/-- The written forms of the parts of a path. -/
def enclosedAll : List Path → List String
  | [] => []
  | p :: rest => enclosed p :: enclosedAll rest

end

end Path

/-- A triple to be matched. -/
structure TriplePattern where
  subject : Term
  predicate : Path
  object : Term
  deriving Repr

namespace TriplePattern

/-- The pattern of a subject, a plain predicate and an object. -/
def plain (subject predicate object : Term) : TriplePattern :=
  ⟨subject, .step predicate, object⟩

/-- The written form of a pattern. -/
def n3 (t : TriplePattern) : String :=
  t.subject.n3 ++ " " ++ t.predicate.n3 ++ " " ++ t.object.n3

/-- The terms at the three places; a path has no term. -/
def terms (t : TriplePattern) : List Term :=
  match t.predicate with
  | .step p => [t.subject, p, t.object]
  | _ => [t.subject, t.object]

/-- The names of the variables of a pattern. -/
def variableNames (t : TriplePattern) : List String :=
  t.terms.filterMap fun
    | .var name => some name
    | _ => none

end TriplePattern

end EntityMapping.Sparql
