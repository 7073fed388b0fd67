import EntityMapping.Sparql.Token

/-!
Parsers over tokens.  A parser either fails, leaving no trace, or yields a result and the tokens
behind it; choices are tried in order and the first that succeeds counts.
-/

namespace EntityMapping.Sparql

/-- A parser of tokens. -/
abbrev Parser := StateT (List Token) Option

namespace Parser

/-- Runs a parser on tokens. -/
def parse {α : Type} (p : Parser α) (ts : List Token) : Option (α × List Token) :=
  p ts

/-- The result of a parser that uses up all tokens. -/
def parseAll {α : Type} (p : Parser α) (ts : List Token) : Option α :=
  match p ts with
  | some (a, []) => some a
  | _ => none

/-- The next token. -/
def next : Parser Token
  | [] => none
  | t :: rest => some (t, rest)

/-- What a test makes of the next token. -/
def satisfy {α : Type} (test : Token → Option α) : Parser α
  | [] => none
  | t :: rest => (test t).map (·, rest)

/-- A given sign. -/
def sign (s : String) : Parser Unit :=
  satisfy fun t => if t = .sign s then some () else none

/-- A given keyword, in any case; the argument is in upper case. -/
def keyword (word : String) : Parser Unit :=
  satisfy fun
    | .word s => if s.toUpper = word then some () else none
    | _ => none

/-- The parser's result, or nothing where it fails. -/
def optionally {α : Type} (p : Parser α) : Parser (Option α) := fun ts =>
  match p ts with
  | some (a, rest) => some (some a, rest)
  | none => some (none, ts)

/-- Results for as long as the parser succeeds, a bounded number of times. -/
def manyWithin {α : Type} : (fuel : Nat) → Parser α → Parser (List α)
  | 0, _ => fun ts => some ([], ts)
  | fuel + 1, p => fun ts =>
    match p ts with
    | some (a, rest) => (manyWithin fuel p rest).map fun (as, rest) => (a :: as, rest)
    | none => some ([], ts)

/-- Results for as long as the parser succeeds.  Each takes a token at least, so their number is
bounded by how many tokens those left may turn into. -/
def many {α : Type} (p : Parser α) : Parser (List α) := fun ts =>
  manyWithin (supply ts) p ts

/-- At least one result. -/
def atLeastOne {α : Type} (p : Parser α) : Parser (List α) := do
  return (← p) :: (← many p)

/-- At least one result, with a sign between any two. -/
def separated {α : Type} (separator : String) (p : Parser α) : Parser (List α) := do
  return (← p) :: (← many (do sign separator; p))

/-- A parser between two signs. -/
def between {α : Type} (first last : String) (p : Parser α) : Parser α := do
  sign first
  let a ← p
  sign last
  return a

/-- How many tokens are left. -/
def remaining : Parser Nat := fun ts => some (ts.length, ts)

/-- How many tokens those left may turn into. -/
def supplied : Parser Nat := fun ts => some (supply ts, ts)

section Application

variable {α β : Type}

@[simp] theorem pure_apply (a : α) (ts : List Token) : (pure a : Parser α) ts = some (a, ts) :=
  rfl

@[simp] theorem failure_apply (ts : List Token) : (failure : Parser α) ts = none := rfl

@[simp] theorem bind_apply (p : Parser α) (f : α → Parser β) (ts : List Token) :
    (p >>= f) ts = (p ts).bind fun (a, rest) => f a rest := by
  change StateT.bind p f ts = _
  unfold StateT.bind
  rfl

@[simp] theorem map_apply (f : α → β) (p : Parser α) (ts : List Token) :
    (f <$> p) ts = (p ts).map fun (a, rest) => (f a, rest) := by
  change StateT.map f p ts = _
  unfold StateT.map
  cases p ts <;> rfl

@[simp] theorem orElse_apply (p q : Parser α) (ts : List Token) :
    (p <|> q) ts = (p ts).or (q ts) := by
  change (p ts <|> q ts) = _
  cases p ts <;> rfl

@[simp] theorem satisfy_cons (test : Token → Option α) (t : Token) (ts : List Token) :
    satisfy test (t :: ts) = (test t).map (·, ts) := rfl

@[simp] theorem sign_sign (s mark : String) (ts : List Token) :
    sign s (.sign mark :: ts) = if mark = s then some ((), ts) else none := by
  by_cases h : mark = s <;> simp [sign, h]

@[simp] theorem keyword_word (word s : String) (ts : List Token) :
    keyword word (.word s :: ts) = if s.toUpper = word then some ((), ts) else none := by
  by_cases h : s.toUpper = word <;> simp [keyword, h]

end Application

end Parser

end EntityMapping.Sparql
