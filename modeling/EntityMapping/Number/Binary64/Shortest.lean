import EntityMapping.Number.Binary64

/-!
The shortest decimal text of a floating point number: of all decimals that read back as the
number, one with the fewest digits, and of those the nearest.  Of two equally near ones it is the
one whose last digit is even.
-/

namespace EntityMapping.Binary64

open Number (digitText)

/-- The exponent `k` with `10 ^ (k - 1) ≤ num / den < 10 ^ k`, for a positive ratio. -/
def decimalMagnitude (num den : Nat) : Int :=
  if den ≤ num then (digitText (num / den)).length
  else 1 - ((digitText ((den - 1) / num)).length : Int)

/-- `num / den` in units of `10 ^ exponent`, as a ratio. -/
def inUnits (num den : Nat) (exponent : Int) : Nat × Nat :=
  if exponent < 0 then (num * Nat.pow 10 exponent.natAbs, den)
  else (num, den * Nat.pow 10 exponent.natAbs)

/-- The better of the two neighbours of the ratio on one decimal grid, if any of them reads back
as the number: the nearer one, of two equally near ones the even one. -/
def onGrid (x : Binary64) (num den : Nat) (exponent : Int) : Option Nat :=
  let (n, d) := inUnits num den exponent
  let below := n / d
  let nearest := if roundDiv n d = below then [below, below + 1] else [below + 1, below]
  nearest.find? fun coefficient => ofScientific false coefficient exponent == x

/-- The first grid, from coarse to fine, with a decimal that reads back. -/
def firstGrid (x : Binary64) (num den : Nat) (magnitude : Int) :
    (tries : Nat) → (digits : Nat) → Option (Nat × Int)
  | 0, _ => none
  | tries + 1, digits =>
    match onGrid x num den (magnitude - digits) with
    | some coefficient => some (coefficient, magnitude - digits)
    | none => firstGrid x num den magnitude tries (digits + 1)

/-- The coefficient and decimal exponent of the shortest decimal of a positive number.  Seventeen
digits are always enough; the exact expansion stands in where no grid answers. -/
def shortest (mantissa : Nat) (exponent : Int) : Nat × Int :=
  let (num, den) := ratio mantissa exponent
  match firstGrid (.finite false mantissa exponent) num den (decimalMagnitude num den) 17 1 with
  | some result => result
  | none =>
    if exponent < 0 then (mantissa * Nat.pow 5 exponent.natAbs, exponent)
    else (mantissa * Nat.pow 2 exponent.natAbs, 0)

/-- The digits without trailing zeros; one digit is kept. -/
def significant (coefficient : Nat) : List Char :=
  match ((digitText coefficient).reverse.dropWhile (· == '0')).reverse with
  | [] => ['0']
  | digits => digits

/-- Positional notation is used for magnitudes above this one, exclusive. -/
def positionalLow : Int := -4

/-- Positional notation is used for magnitudes up to this one, inclusive. -/
def positionalHigh : Int := 16

/-- The digits with a point in front of the place where the magnitude ends, at least one digit on
either side. -/
def positional (digits : List Char) (magnitude : Int) : List Char :=
  if magnitude ≤ 0 then '0' :: '.' :: (List.replicate magnitude.natAbs '0' ++ digits)
  else
    let places := magnitude.natAbs
    if digits.length ≤ places then
      digits ++ List.replicate (places - digits.length) '0' ++ ['.', '0']
    else digits.take places ++ '.' :: digits.drop places

/-- One digit, the rest after a point, and a power of ten of at least two digits. -/
def scientific (digits : List Char) (magnitude : Int) : List Char :=
  let power := magnitude - 1
  let powerDigits := digitText power.natAbs
  let tail := if digits.length ≤ 1 then [] else '.' :: digits.drop 1
  digits.take 1 ++ tail ++ 'e' :: (if power < 0 then '-' else '+') ::
    (List.replicate (2 - powerDigits.length) '0' ++ powerDigits)

/-- The text of a number: its shortest decimal, a point or an exponent always shown. -/
def text : Binary64 → String
  | .finite negative mantissa exponent =>
    let body :=
      if mantissa = 0 then ['0', '.', '0']
      else
        let (coefficient, power) := shortest mantissa exponent
        let magnitude := (digitText coefficient).length + power
        let digits := significant coefficient
        if positionalLow < magnitude && magnitude ≤ positionalHigh then
          positional digits magnitude
        else scientific digits magnitude
    String.ofList ((if negative then ['-'] else []) ++ body)
  | .infinite negative => if negative then "-inf" else "inf"
  | .notANumber => "nan"

end EntityMapping.Binary64
