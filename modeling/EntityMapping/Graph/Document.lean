import EntityMapping.Graph
import EntityMapping.Sparql.Lexer

/-!
What is read from the text of a graph.

Reading goes from the front.  When it meets something that it cannot read it stops, and what it
found up to there counts.
-/

namespace EntityMapping

/-- What was read from a text. -/
structure Document where
  triples : List Triple
  /-- The prefixes that the text declares. -/
  prefixes : List (String × String)
  /-- Whether the whole text was read. -/
  complete : Bool
  deriving DecidableEq, Repr

namespace Document

open Sparql (Token)

/-- A character as it is written inside quotes. -/
def quotedChar (c : Char) : List Char :=
  if c == '"' || c == '\'' || c == '\\' then ['\\', c]
  else if c == '\n' then ['\\', 'n']
  else if c == '\r' then ['\\', 'r']
  else [c]

/-- The character of a code point escape behind its mark, and the text behind it. -/
def takeCodePoint (width : Nat) (cs : List Char) : Option (Char × List Char) :=
  let digits := cs.take width
  if digits.length == width && digits.all Sparql.Lexer.isHex then
    let n := Sparql.Lexer.hexNumber digits
    if h : n.isValidChar then some (Char.ofNatAux n h, cs.drop width) else none
  else none

/-- Code point escapes replaced by their characters; other escapes stay.  Each round takes a
character at least, so the length of the text is enough fuel. -/
def expandCodePoints : (fuel : Nat) → List Char → List Char
  | 0, cs => cs
  | _ + 1, [] => []
  | fuel + 1, '\\' :: mark :: rest =>
    let width := if mark == 'u' then 4 else 8
    if mark == 'u' || mark == 'U' then
      match takeCodePoint width rest with
      | some (c, behind) => quotedChar c ++ expandCodePoints fuel behind
      | none => '\\' :: mark :: expandCodePoints fuel rest
    else '\\' :: mark :: expandCodePoints fuel rest
  | fuel + 1, c :: rest => c :: expandCodePoints fuel rest

/-- The tokens of a text up to the first piece that is none or is a variable, and whether they are
all. -/
def tokensWithin : (fuel : Nat) → List Char → List Token × Bool
  | 0, _ => ([], false)
  | fuel + 1, cs =>
    match Sparql.Lexer.skipBlank cs with
    | [] => ([], true)
    | rest =>
      match Sparql.Lexer.takeToken rest with
      | none | some (.var _, _) => ([], false)
      | some (token, behind) =>
        let (more, complete) := tokensWithin fuel behind
        (token :: more, complete)

/-- The tokens of a text as far as they can be read. -/
def tokens (cs : List Char) : List Token × Bool :=
  let cs := expandCodePoints cs.length cs
  tokensWithin (cs.length + 1) cs

/-- The document with blank nodes that no other document has. -/
def withOwnBlanks (serial : Nat) (d : Document) : Document :=
  let rename (t : Term) : Term :=
    match t with
    | .blank label => .blank ("#" ++ toString serial ++ ":" ++ label)
    | t => t
  { d with
    triples := d.triples.map fun t => ⟨rename t.subject, rename t.predicate, rename t.object⟩ }

end Document

end EntityMapping
