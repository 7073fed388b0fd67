import EntityMapping.Graph.Document
import EntityMapping.Sparql.Grammar.Terms

/-!
Graphs as lines of text: one triple to a line, every term written out in full.
-/

namespace EntityMapping.Lines

open Sparql (Parser)
open Sparql.Parser

/-- An IRI in brackets; it has to be absolute. -/
def absoluteIri : Parser Term :=
  satisfy fun
    | .iri reference => if reference.toList.contains ':' then some (.iri reference) else none
    | _ => none

/-- A blank node by its label. -/
def blank : Parser Term :=
  satisfy fun
    | .blank label => some (.blank label)
    | _ => none

/-- A quoted text with its language or datatype. -/
def literal : Parser Term := do
  let s ← Sparql.Grammar.text
  (do return .literal (Literal.tagged s (← Sparql.Grammar.tag))) <|>
    (do
      sign "^^"
      match ← absoluteIri with
      | .iri datatype => return .literal (Literal.typed s datatype)
      | _ => failure) <|>
    return .literal (Literal.plain s)

/-- The triple of a line. -/
def triple : Parser Triple := do
  let subject ← absoluteIri <|> blank
  let predicate ← absoluteIri
  let object ← absoluteIri <|> blank <|> literal
  sign "."
  return ⟨subject, predicate, object⟩

/-- The triple of one line of text; a line may be empty. -/
def readLine (line : List Char) : Option (List Triple) :=
  match Document.tokens line with
  | ([], true) => some []
  | (ts, true) => (triple.parseAll ts).map ([·])
  | (_, false) => none

/-- The lines of a text. -/
def linesOf (cs : List Char) : List (List Char) :=
  (cs.map fun c => if c == '\r' then '\n' else c).splitOn '\n'

/-- The triples of lines up to the first that cannot be read. -/
def readLines : List (List Char) → List Triple × Bool
  | [] => ([], true)
  | line :: rest =>
    match readLine line with
    | some triples =>
      let (more, complete) := readLines rest
      (triples ++ more, complete)
    | none => ([], false)

/-- Reads a text of lines. -/
def read (s : String) : Document :=
  let (triples, complete) := readLines (linesOf s.toList)
  ⟨triples, [], complete⟩

end EntityMapping.Lines
