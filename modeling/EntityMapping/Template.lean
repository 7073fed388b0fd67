import EntityMapping.Value

/-!
Request templates with named slots.

Values never reach a request by joining strings.  A template holds slots, `?name` or `$name`; terms
are bound to them, and rendering puts the written form of each bound term in place of its whole
slot.  What stands in angle brackets or quotes is skipped, so a mark inside an IRI or a text is no
slot.
-/

namespace EntityMapping

/-- A character that may not stand in an IRI between angle brackets. -/
def isIriBreaker (c : Char) : Bool :=
  ['<', '>', '"', '\x7b', '\x7d', '|', '^', '\x60', '\\'].contains c || Text.isBlank c

/-- Accepts a text as an IRI unless it is empty or could break out of its brackets. -/
def checkIri (s : String) : Except MappingError Term :=
  if s.isEmpty || s.toList.any isIriBreaker then .error (.invalidIri s) else .ok (.iri s)

/-- A piece of a template. -/
inductive Piece where
  | verbatim (s : List Char)
  | slot (mark : Char) (name : List Char)
  deriving DecidableEq, Repr

namespace Piece

/-- Letters that the name of a slot begins with. -/
def isSlotStart (c : Char) : Bool :=
  c.isAlpha || c == '_'

/-- Characters that continue the name of a slot. -/
def isSlotPart (c : Char) : Bool :=
  c.isAlphanum || c == '_'

/-- An IRI's body and closing bracket, behind the opening one. -/
def takeBracketed (cs : List Char) : Option (List Char × List Char) :=
  match cs.dropWhile fun c => !isIriBreaker c with
  | '>' :: rest => some ((cs.takeWhile fun c => !isIriBreaker c) ++ ['>'], rest)
  | _ => none

/-- A text's body and closing quote, behind the opening one. -/
def takeQuoted (quote : Char) : List Char → Option (List Char × List Char)
  | [] => none
  | '\\' :: c :: rest =>
    if c == '\n' then none
    else (takeQuoted quote rest).map fun (body, behind) => ('\\' :: c :: body, behind)
  | c :: rest =>
    if c == quote then some ([c], rest)
    else if c == '\n' || c == '\\' then none
    else (takeQuoted quote rest).map fun (body, behind) => (c :: body, behind)

/-- The longer piece that begins at a character, if one does: something in brackets or quotes, or
a slot. -/
def takeLong (c : Char) (rest : List Char) : Option (Piece × List Char) :=
  if c == '<' then
    (takeBracketed rest).map fun (body, behind) => (.verbatim (c :: body), behind)
  else if c == '"' || c == '\'' then
    (takeQuoted c rest).map fun (body, behind) => (.verbatim (c :: body), behind)
  else if (c == '?' || c == '$') && rest.head?.any isSlotStart then
    some (.slot c (rest.takeWhile isSlotPart), rest.dropWhile isSlotPart)
  else none

/-- The pieces of a text.  Each takes a character at least, so the length is enough fuel. -/
def within : (fuel : Nat) → List Char → List Piece
  | 0, _ => []
  | _ + 1, [] => []
  | fuel + 1, c :: rest =>
    match takeLong c rest with
    | some (piece, behind) => piece :: within fuel behind
    | none => .verbatim [c] :: within fuel rest

/-- The pieces of a text, which put together give the text again. -/
def ofText (s : String) : List Piece :=
  within s.toList.length s.toList

/-- The text of a piece. -/
def text : Piece → List Char
  | .verbatim s => s
  | .slot mark name => mark :: name

/-- The name of a slot. -/
def slotName? : Piece → Option String
  | .verbatim _ => none
  | .slot _ name => some (String.ofList name)

/-- The text of a piece with bound slots filled. -/
def fill (bindings : List (String × Term)) : Piece → List Char
  | .verbatim s => s
  | .slot mark name =>
    match bindings.lookup (String.ofList name) with
    | some t => t.n3.toList
    | none => mark :: name

end Piece

/-- A template with what is bound to its slots. -/
structure Template where
  text : String
  bindings : List (String × Term)
  deriving DecidableEq, Repr

namespace Template

/-- A template with nothing bound. -/
def ofText (s : String) : Template :=
  ⟨s, []⟩

/-- The names of all slots, each once. -/
def slots (t : Template) : List String :=
  ((Piece.ofText t.text).filterMap Piece.slotName?).eraseDups

/-- Binds a term to a name; an earlier binding of the name is replaced. -/
def bind (t : Template) (name : String) (term : Term) : Template :=
  { t with bindings := (name, term) :: t.bindings.filter fun (n, _) => n != name }

/-- Binds an IRI. -/
def setIri (t : Template) (name iri : String) : Except MappingError Template := do
  return t.bind name (← checkIri iri)

/-- Binds the literal of a value.  An empty datatype counts as none, and a literal keeps its own
datatype. -/
def setLiteral (t : Template) (name : String) (value : Value) (datatype : Option String) :
    Template :=
  t.bind name (.literal (value.toLiteral (datatype.filter (!·.isEmpty))))

/-- The term that a slot takes from a value: an IRI or a literal, and nothing else. -/
def slotTerm (name : String) : Value → Except MappingError Term
  | .term (.iri s) => checkIri s
  | .term (.literal l) => .ok (.literal l)
  | .term (.blank label) => .error (.unbindableTerm "BNode" label name)
  | .term (.var v) => .error (.unbindableTerm "Variable" v name)
  | v => .error (.notATerm name v.typeName)

/-- Binds a value that has to be an IRI or a literal. -/
def setParam (t : Template) (name : String) (value : Value) : Except MappingError Template := do
  return t.bind name (← slotTerm name value)

/-- Binds a term that has to be an IRI or a literal. -/
def setTerm (t : Template) (name : String) (term : Term) : Except MappingError Template :=
  t.setParam name (.term term)

/-- The text with the bound slots filled; the others stay variables. -/
def render (t : Template) : String :=
  String.ofList ((Piece.ofText t.text).flatMap (Piece.fill t.bindings))

end Template

end EntityMapping
