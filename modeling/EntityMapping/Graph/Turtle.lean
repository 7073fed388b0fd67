import EntityMapping.Graph.Document
import EntityMapping.Sparql.Grammar.Triples

/-!
Graphs as text with prefixes: statements of triples that share a subject, and declarations between
them.
-/

namespace EntityMapping.Turtle

open Sparql (Parser Prologue Token TriplePattern)
open Sparql.Parser

/-- Declares a prefix; other prefixes of the same namespace stay. -/
def declare (env : Prologue) (label namespaceIri : String) : Prologue :=
  { env with prefixes := (env.prefixes.filter fun (l, _) => l != label) ++ [(label, namespaceIri)] }

/-- A reference in brackets. -/
def reference : Parser String :=
  satisfy fun
    | .iri reference => some reference
    | _ => none

/-- A prefix in front of its namespace. -/
def label : Parser String :=
  satisfy fun
    | .name label localName => if localName = "" then some label else none
    | _ => none

/-- The mark of a declaration that ends with a point. -/
def mark (word : String) : Parser Unit :=
  satisfy fun t => if t = .tag word then some () else none

/-- What a declaration declares, behind its mark. -/
def declared (env : Prologue) (isPrefix : Bool) : Parser Prologue :=
  if isPrefix then do
    let l ← label
    return declare env l (env.resolve (← reference))
  else do
    return { env with base := some (env.resolve (← reference)) }

/-- A declaration of either form. -/
def declaration (env : Prologue) : Parser Prologue :=
  (do mark "prefix"; let env ← declared env true; sign "."; return env) <|>
    (do mark "base"; let env ← declared env false; sign "."; return env) <|>
    (do keyword "PREFIX"; declared env true) <|>
    (do keyword "BASE"; declared env false)

/-- A statement: the triples of one subject. -/
def statement (env : Prologue) : Parser (List Triple) := do
  let patterns ← Sparql.Grammar.triplesOfSubject env (Sparql.Grammar.predicate env)
  sign "."
  return patterns.filterMap fun p =>
    match p.predicate with
    | .step predicate => some ⟨p.subject, predicate, p.object⟩
    | _ => none

/-- The statements of a text from its tokens, up to the first that cannot be read.  Each takes a
token at least, so the number of tokens is enough fuel. -/
def statementsWithin : (fuel : Nat) → Prologue → List Token → Document
  | 0, env, ts => ⟨[], env.prefixes, ts.isEmpty⟩
  | fuel + 1, env, ts =>
    if ts.isEmpty then ⟨[], env.prefixes, true⟩
    else
      match (declaration env).parse ts with
      | some (env, rest) => statementsWithin fuel env rest
      | none =>
        match (statement env).parse ts with
        | some (triples, rest) =>
          let behind := statementsWithin fuel env rest
          { behind with triples := triples ++ behind.triples }
        | none => ⟨[], env.prefixes, false⟩

/-- Reads a text of statements. -/
def read (s : String) : Document :=
  let (ts, complete) := Document.tokens s.toList
  let d := statementsWithin ts.length ⟨none, []⟩ ts
  { d with complete := complete && d.complete }

end EntityMapping.Turtle
