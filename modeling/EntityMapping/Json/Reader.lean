import EntityMapping.Json

/-!
Reading JSON text.  The reader is strict: one value, no comments, no trailing commas, no raw
control characters in strings.  The words for numbers that are not finite are accepted.
-/

namespace EntityMapping.Json.Reader

/-- Blanks between tokens. -/
def isSpace (c : Char) : Bool :=
  c == ' ' || c == '\t' || c == '\n' || c == '\r'

/-- The text behind blanks. -/
def skip (cs : List Char) : List Char :=
  cs.dropWhile isSpace

/-- The value of a hexadecimal digit. -/
def hexValue? (c : Char) : Option Nat :=
  if c.isDigit then some (c.toNat - 48)
  else if 'a' ≤ c && c ≤ 'f' then some (c.toNat - 87)
  else if 'A' ≤ c && c ≤ 'F' then some (c.toNat - 55)
  else none

/-- Four hexadecimal digits, and the text behind them. -/
def takeUnit : List Char → Option (Nat × List Char)
  | a :: b :: c :: d :: rest => do
    let n := 4096 * (← hexValue? a) + 256 * (← hexValue? b) + 16 * (← hexValue? c) +
      (← hexValue? d)
    return (n, rest)
  | _ => none

/-- The character behind the mark of a code unit escape.  Two units of a pair make one character;
a unit without its partner is replaced. -/
def takeUnits (cs : List Char) : Option (Char × List Char) := do
  let (high, rest) ← takeUnit cs
  if 0xD800 ≤ high && high < 0xDC00 then
    match rest with
    | '\\' :: 'u' :: more =>
      let (low, behind) ← takeUnit more
      if 0xDC00 ≤ low && low < 0xE000 then
        return (Char.ofNat (0x10000 + (high - 0xD800) * 1024 + (low - 0xDC00)), behind)
      else return (Char.ofNat 0xFFFD, rest)
    | _ => return (Char.ofNat 0xFFFD, rest)
  else if 0xDC00 ≤ high && high < 0xE000 then return (Char.ofNat 0xFFFD, rest)
  else return (Char.ofNat high, rest)

/-- The character of a short escape. -/
def unescape : Char → Option Char
  | '"' => some '"'
  | '\\' => some '\\'
  | '/' => some '/'
  | 'b' => some '\x08'
  | 'f' => some '\x0c'
  | 'n' => some '\n'
  | 'r' => some '\r'
  | 't' => some '\t'
  | _ => none

/-- The rest of a string, behind its opening quote; `acc` holds what was read, reversed. -/
def takeString : (fuel : Nat) → List Char → List Char → Option (String × List Char)
  | 0, _, _ => none
  | _ + 1, _, [] => none
  | fuel + 1, acc, c :: rest =>
    if c == '"' then some (String.ofList acc.reverse, rest)
    else if c == '\\' then
      match rest with
      | 'u' :: more => do
        let (d, behind) ← takeUnits more
        takeString fuel (d :: acc) behind
      | e :: more => do takeString fuel ((← unescape e) :: acc) more
      | [] => none
    else if c.toNat < 0x20 then none
    else takeString fuel (c :: acc) rest

/-- An exponent with its mark, or nothing; fails on a mark without digits. -/
def takeExponent : List Char → Option (List Char × List Char)
  | e :: rest =>
    if e == 'e' || e == 'E' then
      let (sign, digits) := match rest with
        | '+' :: more => (['+'], more)
        | '-' :: more => (['-'], more)
        | more => ([], more)
      let run := digits.takeWhile Char.isDigit
      if run.isEmpty then none else some (e :: sign ++ run, digits.drop run.length)
    else some ([], e :: rest)
  | [] => some ([], [])

/-- A number without its sign. -/
def takeUnsigned (negative : Bool) (cs : List Char) : Option (Json × List Char) := do
  let whole := cs.takeWhile Char.isDigit
  let behind := cs.drop whole.length
  if whole.isEmpty || (whole.length > 1 && whole.head? == some '0') then none
  let (places, behind) ← match behind with
    | '.' :: more =>
      let run := more.takeWhile Char.isDigit
      if run.isEmpty then none else some ('.' :: run, more.drop run.length)
    | _ => some ([], behind)
  let (power, behind) ← takeExponent behind
  let sign := if negative then ['-'] else []
  if places.isEmpty && power.isEmpty then
    let n : Int := Number.ofDigits (whole.map fun c => c.toNat - 48)
    return (.integer (if negative then -n else n), behind)
  else return (.real (String.ofList (sign ++ whole ++ places ++ power)), behind)

/-- The words of the language. -/
def words : List (String × Json) :=
  [("null", .null), ("true", .bool true), ("false", .bool false), ("NaN", .real "NaN"),
    ("Infinity", .real "Infinity"), ("-Infinity", .real "-Infinity")]

/-- A word or a number. -/
def takeScalar (cs : List Char) : Option (Json × List Char) :=
  match words.find? fun (word, _) => word.toList.isPrefixOf cs with
  | some (word, value) => some (value, cs.drop word.length)
  | none =>
    match cs with
    | '-' :: rest => takeUnsigned true rest
    | _ => takeUnsigned false cs

mutual

/-- A value that begins behind blanks. -/
def takeValue : (fuel : Nat) → List Char → Option (Json × List Char)
  | 0, _ => none
  | fuel + 1, cs =>
    match skip cs with
    | '"' :: rest =>
      (takeString (rest.length + 1) [] rest).map fun (s, behind) => (.string s, behind)
    | '[' :: rest =>
      match skip rest with
      | ']' :: behind => some (.array [], behind)
      | items => takeItems fuel [] items
    | '\x7b' :: rest =>
      match skip rest with
      | '\x7d' :: behind => some (.object [], behind)
      | members => takeMembers fuel [] members
    | rest => takeScalar rest

/-- The items of an array, behind the first bracket; `acc` holds those read, reversed. -/
def takeItems : (fuel : Nat) → List Json → List Char → Option (Json × List Char)
  | 0, _, _ => none
  | fuel + 1, acc, cs => do
    let (item, behind) ← takeValue fuel cs
    match skip behind with
    | ',' :: rest => takeItems fuel (item :: acc) rest
    | ']' :: rest => some (.array (item :: acc).reverse, rest)
    | _ => none

/-- The members of an object, behind the first brace. -/
def takeMembers : (fuel : Nat) → List (String × Json) → List Char → Option (Json × List Char)
  | 0, _, _ => none
  | fuel + 1, acc, cs => do
    match skip cs with
    | '"' :: rest =>
      let (name, behind) ← takeString (rest.length + 1) [] rest
      match skip behind with
      | ':' :: rest =>
        let (value, behind) ← takeValue fuel rest
        let acc := setMember acc name value
        match skip behind with
        | ',' :: rest => takeMembers fuel acc rest
        | '\x7d' :: rest => some (.object acc, rest)
        | _ => none
      | _ => none
    | _ => none

end

end EntityMapping.Json.Reader

namespace EntityMapping.Json

/-- Reads a text that holds exactly one value. -/
def read (s : String) : Option Json :=
  let cs := s.toList
  match Reader.takeValue (cs.length + 1) cs with
  | some (value, rest) => if (Reader.skip rest).isEmpty then some value else none
  | none => none

end EntityMapping.Json
