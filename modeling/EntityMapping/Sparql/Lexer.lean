import EntityMapping.Sparql.Token
import EntityMapping.Vocabulary

/-!
Cutting a request into tokens.

Blanks and comments stand between tokens.  Each kind of token has its own scanner, which takes the
longest piece of its form and leaves the rest of the text.
-/

namespace EntityMapping.Sparql.Lexer

/-- Blanks of the query language. -/
def isSpace (c : Char) : Bool :=
  c == ' ' || c == '\t' || c == '\n' || c == '\r'

/-- Letters that names may begin with, of all scripts. -/
def isNameBase (c : Char) : Bool :=
  let n := c.toNat
  c.isAlpha || (0xC0 ≤ n && n ≤ 0xD6) || (0xD8 ≤ n && n ≤ 0xF6) || (0xF8 ≤ n && n ≤ 0x2FF) ||
    (0x370 ≤ n && n ≤ 0x37D) || (0x37F ≤ n && n ≤ 0x1FFF) || (0x200C ≤ n && n ≤ 0x200D) ||
    (0x2070 ≤ n && n ≤ 0x218F) || (0x2C00 ≤ n && n ≤ 0x2FEF) || (0x3001 ≤ n && n ≤ 0xD7FF) ||
    (0xF900 ≤ n && n ≤ 0xFDCF) || (0xFDF0 ≤ n && n ≤ 0xFFFD) || (0x10000 ≤ n && n ≤ 0xEFFFF)

/-- Letters and the underscore. -/
def isNameStart (c : Char) : Bool :=
  c == '_' || isNameBase c

/-- Characters that continue a variable's name. -/
def isVarPart (c : Char) : Bool :=
  let n := c.toNat
  isNameStart c || c.isDigit || n == 0xB7 || (0x300 ≤ n && n ≤ 0x36F) ||
    (0x203F ≤ n && n ≤ 0x2040)

/-- Characters that continue a name. -/
def isNamePart (c : Char) : Bool :=
  c == '-' || isVarPart c

/-- Visible characters that may not stand between angle brackets. -/
def iriBreakers : List Char :=
  ['<', '>', '"', '\x7b', '\x7d', '|', '^', '\x60', '\\']

/-- Characters that may stand between angle brackets. -/
def isIriChar (c : Char) : Bool :=
  c.toNat > 0x20 && !iriBreakers.contains c

/-- Characters that a local name may escape. -/
def isLocalEscape (c : Char) : Bool :=
  "_~.-!$&\"'()*+,;=/?#@%".toList.contains c

/-- A hexadecimal digit. -/
def isHex (c : Char) : Bool :=
  c.isDigit || ('a' ≤ c && c ≤ 'f') || ('A' ≤ c && c ≤ 'F')

/-- The value of a hexadecimal digit. -/
def hexValue (c : Char) : Nat :=
  if c.isDigit then c.toNat - 48 else if c ≤ 'F' then c.toNat - 55 else c.toNat - 87

/-- The number that hexadecimal digits write. -/
def hexNumber (cs : List Char) : Nat :=
  cs.foldl (fun n c => 16 * n + hexValue c) 0

/-- The text without a run of points at its end, and that run. -/
def splitFinalPoints (cs : List Char) : List Char × List Char :=
  let points := cs.reverse.takeWhile (· == '.')
  (cs.take (cs.length - points.length), points)

/-- A run of characters of one kind, and the rest. -/
def takeRun (p : Char → Bool) (cs : List Char) : List Char × List Char :=
  (cs.takeWhile p, cs.dropWhile p)

/-- A name in which points may stand, but not at the end. -/
def takePointed (p : Char → Bool) (cs : List Char) : List Char × List Char :=
  let (run, rest) := takeRun (fun c => c == '.' || p c) cs
  let (name, points) := splitFinalPoints run
  (name, points ++ rest)

/-- One character of a local name, without its escape, and how many characters it took. -/
def localChar (first : Bool) : List Char → Option (List Char × List Char)
  | '%' :: a :: b :: rest => if isHex a && isHex b then some (['%', a, b], rest) else none
  | '\\' :: c :: rest => if isLocalEscape c then some ([c], rest) else none
  | c :: rest =>
    if c == ':' || (if first then isNameStart c || c.isDigit else isNamePart c) then
      some ([c], rest)
    else none
  | [] => none

/-- A local name behind its first character: points may stand inside.  Each round takes at least
one character, so the length of the text is enough fuel. -/
def takeLocalRest : (fuel : Nat) → List Char → List Char × List Char
  | 0, cs => ([], cs)
  | fuel + 1, cs =>
    match localChar false cs with
    | some (part, rest) =>
      let (more, rest) := takeLocalRest fuel rest
      (part ++ more, rest)
    | none =>
      match takeRun (· == '.') cs with
      | ([], _) => ([], cs)
      | (points, rest) =>
        match localChar false rest with
        | some (part, rest) =>
          let (more, rest) := takeLocalRest fuel rest
          (points ++ part ++ more, rest)
        | none => ([], cs)

/-- A local name, perhaps empty. -/
def takeLocal (cs : List Char) : List Char × List Char :=
  match localChar true cs with
  | some (part, rest) =>
    let (more, rest) := takeLocalRest rest.length rest
    (part ++ more, rest)
  | none => ([], cs)

/-- The character that an escape in a quoted text stands for. -/
def unescape : Char → Option Char
  | 't' => some '\t'
  | 'b' => some '\x08'
  | 'n' => some '\n'
  | 'r' => some '\r'
  | 'f' => some '\x0c'
  | '"' => some '"'
  | '\'' => some '\''
  | '\\' => some '\\'
  | _ => none

/-- A text up to its closing quote, on one line. -/
def takeLine (quote : Char) : List Char → Option (List Char × List Char)
  | [] => none
  | '\\' :: c :: rest => do
    let d ← unescape c
    let (more, rest) ← takeLine quote rest
    return (d :: more, rest)
  | c :: rest =>
    if c == quote then (if rest.head? == some quote then none else some ([], rest))
    else if c == '\n' || c == '\r' || c == '\\' then none
    else do
      let (more, rest) ← takeLine quote rest
      return (c :: more, rest)

/-- A text up to its tripled closing quote. -/
def takeLines (quote : Char) : List Char → Option (List Char × List Char)
  | [] => none
  | '\\' :: c :: rest => do
    let d ← unescape c
    let (more, rest) ← takeLines quote rest
    return (d :: more, rest)
  | c :: rest =>
    if c == quote && [quote, quote].isPrefixOf rest then some ([], rest.drop 2)
    else if c == '\\' then none
    else do
      let (more, rest) ← takeLines quote rest
      return (c :: more, rest)

/-- A quoted text, behind its first quote. -/
def takeText (quote : Char) (cs : List Char) : Option (Token × List Char) :=
  let found :=
    if [quote, quote].isPrefixOf cs then takeLines quote (cs.drop 2) else takeLine quote cs
  found.map fun (s, rest) => (.text (String.ofList s), rest)

/-- The sign of an exponent, perhaps none. -/
def takeExponentSign : List Char → List Char × List Char
  | '+' :: more => (['+'], more)
  | '-' :: more => (['-'], more)
  | more => ([], more)

/-- An exponent with its mark, or nothing. -/
def takeExponent : List Char → List Char × List Char
  | e :: rest =>
    if e == 'e' || e == 'E' then
      let (signs, digits) := takeExponentSign rest
      match takeRun Char.isDigit digits with
      | ([], _) => ([], e :: rest)
      | (run, rest) => (e :: signs ++ run, rest)
    else ([], e :: rest)
  | [] => ([], [])

/-- The digits behind a point, or nothing where there is no point. -/
def takePlaces : List Char → List Char × List Char
  | '.' :: more => takeRun Char.isDigit more
  | rest => ([], rest)

/-- An unsigned number: with an exponent it is a floating point one, with a point and digits
behind it a decimal one, else a whole one. -/
def takeNumber (cs : List Char) : Option (String × String × List Char) :=
  let (whole, rest) := takeRun Char.isDigit cs
  let (places, behind) := takePlaces rest
  let pointed := rest.head? == some '.'
  match takeExponent behind with
  | (e :: power, final) =>
    if pointed && !(whole.isEmpty && places.isEmpty) then
      some (String.ofList (whole ++ '.' :: places ++ e :: power), Xsd.double, final)
    else if !pointed && !whole.isEmpty then
      some (String.ofList (whole ++ e :: power), Xsd.double, final)
    else none
  | ([], _) =>
    if pointed && !places.isEmpty then
      some (String.ofList (whole ++ '.' :: places), Xsd.decimal, behind)
    else if !whole.isEmpty then some (String.ofList whole, Xsd.integer, rest)
    else none

/-- Whether a number begins here. -/
def startsNumber : List Char → Bool
  | c :: d :: _ => c.isDigit || (c == '.' && d.isDigit)
  | [c] => c.isDigit
  | [] => false

/-- A reference behind its opening bracket. -/
def takeIri (cs : List Char) : Option (Token × List Char) :=
  match takeRun isIriChar cs with
  | (body, '>' :: rest) => some (.iri (String.ofList body), rest)
  | _ => none

/-- A prefixed name or a word. -/
def takeName (cs : List Char) : Option (Token × List Char) :=
  let (label, rest) := takePointed isNamePart cs
  match rest with
  | ':' :: more =>
    let (localName, rest) := takeLocal more
    some (.name (String.ofList label) (String.ofList localName), rest)
  | _ =>
    match takeRun (fun c => c.isAlphanum || c == '_') cs with
    | ([], _) => none
    | (word, rest) => some (.word (String.ofList word), rest)

/-- A variable behind its mark, if a name stands there. -/
def takeVar (cs : List Char) : Option (Token × List Char) :=
  match cs with
  | c :: _ =>
    if isNameStart c || c.isDigit then
      let (name, rest) := takeRun isVarPart cs
      some (.var (String.ofList name), rest)
    else none
  | [] => none

/-- A blank node's label behind its mark. -/
def takeLabel (cs : List Char) : Option (Token × List Char) :=
  match cs with
  | c :: rest =>
    if isNameStart c || c.isDigit then
      let (label, rest) := takePointed isNamePart rest
      some (.blank (String.ofList (c :: label)), rest)
    else none
  | [] => none

/-- A language tag behind its mark. -/
def takeTag (cs : List Char) : Option (Token × List Char) :=
  match takeRun Char.isAlpha cs with
  | ([], _) => none
  | (head, rest) =>
    let rec parts : (fuel : Nat) → List Char → List Char × List Char
      | 0, cs => ([], cs)
      | fuel + 1, cs =>
        match cs with
        | '-' :: more =>
          match takeRun Char.isAlphanum more with
          | ([], _) => ([], cs)
          | (part, rest) =>
            let (others, rest) := parts fuel rest
            ('-' :: part ++ others, rest)
        | _ => ([], cs)
    let (tail, rest) := parts rest.length rest
    some (.tag (String.ofList (head ++ tail)), rest)

/-- Operators of two characters. -/
def twoCharSigns : List String :=
  ["^^", "||", "&&", "!=", "<=", ">="]

/-- Punctuation and operators of one character. -/
def oneCharSigns : List Char :=
  ['\x7b', '\x7d', '(', ')', '[', ']', '.', ',', ';', '*', '/', '|', '^', '?', '+', '-', '!', '=',
    '<', '>']

/-- An operator or a piece of punctuation. -/
def takeSign (cs : List Char) : Option (Token × List Char) :=
  let two := String.ofList (cs.take 2)
  if twoCharSigns.contains two then some (.sign two, cs.drop 2)
  else
    match cs with
    | c :: rest => if oneCharSigns.contains c then some (.sign c.toString, rest) else none
    | [] => none

/-- The token at the start of a text that does not begin with a blank. -/
def takeToken (cs : List Char) : Option (Token × List Char) :=
  match cs with
  | [] => none
  | '<' :: rest => (takeIri rest).or (takeSign cs)
  | '"' :: rest => takeText '"' rest
  | '\'' :: rest => takeText '\'' rest
  | '?' :: rest => (takeVar rest).or (takeSign cs)
  | '$' :: rest => takeVar rest
  | '@' :: rest => takeTag rest
  | '_' :: ':' :: rest => takeLabel rest
  | ':' :: _ => takeName cs
  | '+' :: rest => signed ['+'] rest
  | '-' :: rest => signed ['-'] rest
  | c :: _ =>
    if startsNumber cs then
      (takeNumber cs).map fun (lexical, datatype, rest) => (.number lexical datatype, rest)
    else if isNameStart c then takeName cs
    else takeSign cs
where
  /-- A number with its sign, or the sign alone. -/
  signed (sign rest : List Char) : Option (Token × List Char) :=
    if startsNumber rest then
      (takeNumber rest).map fun (lexical, datatype, more) =>
        (.number (String.ofList sign ++ lexical) datatype, more)
    else some (.sign (String.ofList sign), rest)

/-- The text behind blanks and comments. -/
def skipBlank : List Char → List Char
  | [] => []
  | '#' :: rest => skipComment rest
  | c :: rest => if isSpace c then skipBlank rest else c :: rest
where
  /-- The text behind the rest of a comment. -/
  skipComment : List Char → List Char
    | [] => []
    | '\n' :: rest => skipBlank rest
    | _ :: rest => skipComment rest

/-- All tokens of a text.  A token takes at least one character, so the length of the text is
enough fuel. -/
def tokensWithin : (fuel : Nat) → List Char → Option (List Token)
  | 0, _ => none
  | fuel + 1, cs =>
    match skipBlank cs with
    | [] => some []
    | rest => do
      let (token, rest) ← takeToken rest
      return token :: (← tokensWithin fuel rest)

/-- The tokens of a reference when its angle brackets are operators, the second one perhaps with an
equals sign behind it. -/
def bracketsAsSigns (reference : String) (equals : Bool) : Option (List Token) := do
  let last := if equals then ['>', '='] else ['>']
  let (first, rest) ← takeSign ('<' :: reference.toList)
  return first :: (← tokensWithin (rest.length + 3) (rest ++ last))

/-- Code point escapes replaced by their characters: four or eight hexadecimal digits behind a
backslash and the letter `u`. -/
def expandCodePoints : (fuel : Nat) → List Char → Option (List Char)
  | 0, cs => some cs
  | _ + 1, [] => some []
  | fuel + 1, '\\' :: u :: rest =>
    let digits := (rest.take 8).takeWhile isHex
    if (u == 'u' || u == 'U') && 4 ≤ digits.length then
      let width := if digits.length == 8 then 8 else 4
      let n := hexNumber (digits.take width)
      if n.isValidChar then (expandCodePoints fuel (rest.drop width)).map (Char.ofNat n :: ·)
      else none
    else (expandCodePoints fuel (u :: rest)).map ('\\' :: ·)
  | fuel + 1, c :: rest => (expandCodePoints fuel rest).map (c :: ·)

/-- The distance of tab stops. -/
def tabWidth : Nat := 8

/-- Tabs replaced by blanks up to the next tab stop, wherever they stand, for a text that begins at
a column. -/
def expandTabs : (column : Nat) → List Char → List Char
  | _, [] => []
  | column, c :: rest =>
    if c == '\t' then
      let width := tabWidth - column % tabWidth
      List.replicate width ' ' ++ expandTabs (column + width) rest
    else if c == '\n' || c == '\r' then c :: expandTabs 0 rest
    else c :: expandTabs (column + 1) rest

/-- The tokens of a request, or nothing when some piece of it is no token. -/
def tokens (s : String) : Option (List Token) := do
  let cs ← expandCodePoints s.toList.length s.toList
  let cs := expandTabs 0 cs
  tokensWithin (cs.length + 1) cs

end EntityMapping.Sparql.Lexer
