import EntityMapping.Text.Digit

/-!
Runs of decimal digits in which single underscores may separate digits, as in `1_000`.
-/

namespace EntityMapping.Number

/-- The digits of a run, or nothing when the text is not one: a run is not empty, and an
underscore stands between two digits only. -/
def readGrouped : List Char → Option (List Nat)
  | [] => none
  | [c] => (Text.digitValue? c).map ([·])
  | c :: '_' :: rest => do return (← Text.digitValue? c) :: (← readGrouped rest)
  | c :: d :: rest => do return (← Text.digitValue? c) :: (← readGrouped (d :: rest))

/-- The number that a list of decimal digits writes, the highest first. -/
def ofDigits (digits : List Nat) : Nat :=
  digits.foldl (fun value digit => 10 * value + digit) 0

/-- The decimal digits of a number, the highest first. -/
def digitText (n : Nat) : List Char :=
  Nat.toDigits 10 n

/-- An optional sign and what follows it; `true` is minus. -/
def takeSign : List Char → Bool × List Char
  | '-' :: rest => (true, rest)
  | '+' :: rest => (false, rest)
  | rest => (false, rest)

end EntityMapping.Number
