import EntityMapping.Term.Literal

/-!
The written form of terms in queries, updates and messages.

A literal stands in double quotes.  Text of several lines stands in tripled quotes, where line
feeds stay as they are.
-/

namespace EntityMapping

namespace Literal

/-- One character inside plain double quotes. -/
def escapeChar : Char → List Char
  | '\\' => ['\\', '\\']
  | '"' => ['\\', '"']
  | '\r' => ['\\', 'r']
  | c => [c]

/-- The text between plain double quotes. -/
def escapeLine (cs : List Char) : List Char :=
  cs.flatMap escapeChar

/-- Every backslash written twice. -/
def doubleBackslashes (cs : List Char) : List Char :=
  cs.flatMap fun c => if c == '\\' then ['\\', '\\'] else [c]

/-- Every run of three double quotes escaped, from the left. -/
def escapeTriples : List Char → List Char
  | '"' :: '"' :: '"' :: rest => '\\' :: '"' :: '\\' :: '"' :: '\\' :: '"' :: escapeTriples rest
  | c :: rest => c :: escapeTriples rest
  | [] => []

/-- A last double quote escaped, unless a backslash stands before it. -/
def escapeLast (cs : List Char) : List Char :=
  match cs.reverse with
  | '"' :: '\\' :: _ => cs
  | '"' :: rest => rest.reverse ++ ['\\', '"']
  | _ => cs

/-- Carriage returns escaped. -/
def escapeReturns (cs : List Char) : List Char :=
  cs.flatMap fun c => if c == '\r' then ['\\', 'r'] else [c]

/-- The text between tripled double quotes. -/
def escapeLines (cs : List Char) : List Char :=
  escapeReturns (escapeLast (escapeTriples (doubleBackslashes cs)))

/-- The text in quotes. -/
def quotedText (cs : List Char) : List Char :=
  if cs.contains '\n' then ['"', '"', '"'] ++ escapeLines cs ++ ['"', '"', '"']
  else '"' :: escapeLine cs ++ ['"']

/-- The list with every occurrence of one pattern replaced, from the left. -/
def replaceAll (pattern replacement : List Char) : (fuel : Nat) → List Char → List Char
  | 0, cs => cs
  | _ + 1, [] => []
  | fuel + 1, c :: rest =>
    if pattern.isPrefixOf (c :: rest) then
      replacement ++ replaceAll pattern replacement fuel ((c :: rest).drop pattern.length)
    else c :: replaceAll pattern replacement fuel rest

/-- Numbers that are not finite are spelled as the standard datatypes spell them. -/
def spellNonFinite (literal : Literal) (encoded : List Char) : List Char :=
  let numeric := (Xsd.decimal :: Xsd.floatFamily).any fun d => literal.datatype == some d
  match if numeric then Binary64.read literal.lexical else none with
  | some (.infinite _) =>
    let encoded := replaceAll "inf".toList "INF".toList encoded.length encoded
    replaceAll "Infinity".toList "INF".toList encoded.length encoded
  | some .notANumber => replaceAll "nan".toList "NaN".toList encoded.length encoded
  | _ => encoded

/-- The language tag or datatype behind the quotes; an empty datatype is not shown. -/
def suffix (literal : Literal) : List Char :=
  match literal.language, literal.datatype with
  | some tag, _ => '@' :: tag.toList
  | none, some datatype =>
    if datatype.isEmpty then [] else '^' :: '^' :: '<' :: datatype.toList ++ ['>']
  | none, none => []

/-- The written form of a literal. -/
def n3 (literal : Literal) : String :=
  String.ofList
    (literal.spellNonFinite (quotedText literal.lexical.toList) ++ literal.suffix)

end Literal

namespace Term

/-- The written form of a term. -/
def n3 : Term → String
  | .iri s => "<" ++ s ++ ">"
  | .literal l => l.n3
  | .blank label => "_:" ++ label
  | .var name => "?" ++ name

end Term

end EntityMapping
