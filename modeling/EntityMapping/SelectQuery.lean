import EntityMapping.MappingError
import EntityMapping.Pattern
import EntityMapping.Sparql.Grammar.Queries
import EntityMapping.Text.Blank
import EntityMapping.Text.Word

/-!
Selections that can be mapped: their pattern, what they project, and their text cut in two, so
that the body can be wrapped when a part of the entities is loaded.
-/

namespace EntityMapping

/-- A selection to be mapped. -/
structure SelectQuery where
  text : String
  /-- The declarations, each on a line of its own or as they are written. -/
  declarations : String
  /-- The text behind the declarations. -/
  body : String
  projected : List String
  pattern : Pattern

namespace SelectQuery

/-- Whether a text begins with a word, in any case; the rest of it. -/
def dropWord (word : String) (cs : List Char) : Option (List Char) :=
  let n := word.toList.length
  if (cs.take n).map Char.toUpper == word.toList then some (cs.drop n) else none

/-- The text behind a bracketed IRI. -/
def dropBracketed : List Char → Option (List Char)
  | '<' :: rest =>
    match rest.dropWhile (· != '>') with
    | '>' :: behind => some behind
    | _ => none
  | _ => none

/-- The text behind one blank or more. -/
def dropBlanks (cs : List Char) : Option (List Char) :=
  match cs with
  | c :: rest => if Text.isBlank c then some (Text.trimLeft rest) else none
  | [] => none

/-- The text behind a declaration that it begins with. -/
def dropDeclaration (cs : List Char) : Option (List Char) :=
  (do
    let rest ← dropBlanks (← dropWord "PREFIX" cs)
    match rest.dropWhile fun c => Text.isWord c || c == '.' || c == '-' with
    | ':' :: more => dropBracketed (Text.trimLeft more)
    | _ => none) <|>
  (do dropBracketed (Text.trimLeft (← dropWord "BASE" cs)))

/-- The text behind the declarations that it begins with.  Each takes several characters, so the
length of the text is enough fuel. -/
def dropDeclarations : (fuel : Nat) → List Char → List Char
  | 0, cs => cs
  | fuel + 1, cs =>
    match dropDeclaration cs with
    | some rest => dropDeclarations fuel (Text.trimLeft rest)
    | none => cs

/-- The declarations of a query with the blanks around them, and the rest of its text. -/
def splitText (s : String) : List Char × List Char :=
  let cs := s.toList
  let body := dropDeclarations cs.length (Text.trimLeft cs)
  (cs.take (cs.length - body.length), body)

/-- A prefix declaration on a line of its own. -/
def declarationLine (label namespaceIri : String) : String :=
  "PREFIX " ++ label ++ ": <" ++ namespaceIri ++ ">\n"

/-- The declarations of a wrapped query: those given beside the text, then its own. -/
def declarationText (namespaces : List (String × String)) (own : List Char) : String :=
  let trimmed := String.ofList (Text.trim own)
  String.join (namespaces.map fun (label, iri) => declarationLine label iri) ++
    (if trimmed.isEmpty then "" else trimmed ++ "\n")

/-- Reads a selection, with prefixes declared beside the text. -/
def read (namespaces : List (String × String)) (s : String) : Except MappingError SelectQuery :=
  match Sparql.Query.read (Sparql.Prologue.initial.declareAll namespaces) s with
  | none => .error .unparsableQuery
  | some .ask => .error (.notSelection "AskQuery")
  | some .construct => .error (.notSelection "ConstructQuery")
  | some .describe => .error (.notSelection "DescribeQuery")
  | some (.select pattern projected) =>
    let (own, body) := splitText s
    .ok {
      text := s
      declarations := declarationText namespaces own
      body := String.ofList (Text.trim body)
      projected := projected
      pattern := .ofAlgebra pattern }

/-- A selection given by its pattern, without text. -/
def ofPattern (projected : List String) (pattern : Pattern) : SelectQuery :=
  ⟨"", "", "", projected, pattern⟩

end SelectQuery

end EntityMapping
