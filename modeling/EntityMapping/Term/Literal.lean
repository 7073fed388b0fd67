import EntityMapping.Number.Binary64.Shortest
import EntityMapping.Number.Integer
import EntityMapping.Term.Basic
import EntityMapping.Vocabulary

/-!
Building literals, from text and from values.

A text with a datatype is read as a value of that datatype; when it can be read, the literal takes
the canonical text of the value.  A value keeps itself: with a foreign datatype the literal says
one thing and stands for another.
-/

namespace EntityMapping

namespace Datum

/-- The canonical text of a value. -/
def lexical : Datum → String
  | .text s => s
  | .integer i => Number.integerText i
  | .boolean b => if b then "true" else "false"
  | .double x => x.text
  | .decimal d => d.text
  | .date d => d.text

/-- The datatype of a value where none is asked for; plain text has none. -/
def datatype : Datum → Option String
  | .text _ => none
  | .integer _ => some Xsd.integer
  | .boolean _ => some Xsd.boolean
  | .double _ => some Xsd.double
  | .decimal _ => some Xsd.decimal
  | .date _ => some Xsd.date

/-- Reads a text as a value of a datatype.  Every text is a truth value: it is true when it is
`true` or `1` and false otherwise. -/
def ofLexical (s datatype : String) : Option Datum :=
  if Xsd.integerFamily.contains datatype then (Number.readInteger s).map .integer
  else if datatype == Xsd.decimal then (Decimal.read s).map .decimal
  else if Xsd.floatFamily.contains datatype then (Binary64.read s).map .double
  else if datatype == Xsd.boolean then
    let lower := s.toList.map Char.toLower
    some (.boolean (lower == "true".toList || lower == "1".toList))
  else if datatype == Xsd.date then (Date.read s).map .date
  else if datatype == Xsd.string || datatype == Xsd.anyURI then some (.text s)
  else none

end Datum

namespace Literal

/-- A text without datatype and language. -/
def plain (s : String) : Literal :=
  ⟨s, none, none, some (.text s)⟩

/-- A text in a language. -/
def tagged (s tag : String) : Literal :=
  ⟨s, none, some tag, some (.text s)⟩

/-- A text of a datatype, in canonical form when it can be read. -/
def typed (s datatype : String) : Literal :=
  match Datum.ofLexical s datatype with
  | some value => ⟨value.lexical, some datatype, none, some value⟩
  | none => ⟨s, some datatype, none, none⟩

/-- A text with or without a datatype. -/
def ofText (s : String) (datatype : Option String) : Literal :=
  match datatype with
  | some d => typed s d
  | none => plain s

/-- The literal of a value.  Text is read by the datatype; other values keep themselves. -/
def ofDatum (value : Datum) (datatype : Option String) : Literal :=
  match value with
  | .text s => ofText s datatype
  | _ => ⟨value.lexical, datatype <|> value.datatype, none, some value⟩

/-- The literal of no value at all. -/
def ofNothing (datatype : Option String) : Literal :=
  ⟨"None", datatype, none, none⟩

/-- Letters of a language tag's first part. -/
def isTagLetter (c : Char) : Bool :=
  ('a' ≤ c && c ≤ 'z') || ('A' ≤ c && c ≤ 'Z')

/-- The parts of a tag between hyphens. -/
def tagParts (cs : List Char) : List (List Char) :=
  cs.splitOn '-'

/-- A language tag: letters, then any number of parts of letters and digits behind hyphens. -/
def isTag (s : String) : Bool :=
  match tagParts s.toList with
  | [] => false
  | head :: rest =>
    !head.isEmpty && head.all isTagLetter &&
      rest.all fun part => !part.isEmpty && part.all fun c => isTagLetter c || c.isDigit

end Literal

end EntityMapping
