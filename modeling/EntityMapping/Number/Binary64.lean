import EntityMapping.Number.Decimal

/-!
Floating point numbers with 53 bits of precision, as exact data.  A finite number is
`mantissa · 2 ^ exponent`; rounding a ratio goes to the nearest such number, a tie to the even
mantissa.
-/

namespace EntityMapping

/-- A floating point number.  A finite one is in lowest form: its mantissa is below `2 ^ 53`, and
at least `2 ^ 52` unless the exponent is the least one. -/
inductive Binary64 where
  | finite (negative : Bool) (mantissa : Nat) (exponent : Int)
  | infinite (negative : Bool)
  | notANumber
  deriving DecidableEq, Repr

namespace Binary64

/-- The exponent of the smallest numbers. -/
def minExponent : Int := -1074

/-- The exponent of the largest numbers. -/
def maxExponent : Int := 971

/-- Mantissas are below this number, `2 ^ 53`. -/
def mantissaLimit : Nat := 9007199254740992

/-- The quotient rounded to the nearest number, a tie to the even one. -/
def roundDiv (num den : Nat) : Nat :=
  let quotient := num / den
  let twice := 2 * (num % den)
  if twice > den || (twice == den && quotient % 2 == 1) then quotient + 1 else quotient

/-- `num / den` over `2 ^ exponent`, as a ratio. -/
def scaleDown (num den : Nat) (exponent : Int) : Nat × Nat :=
  if exponent < 0 then (num * Nat.pow 2 exponent.natAbs, den)
  else (num, den * Nat.pow 2 exponent.natAbs)

/-- The mantissa at the given exponent, moved on when rounding fills the next power of two. -/
def atExponent (negative : Bool) (num den : Nat) (exponent : Int) : Binary64 :=
  let (n, d) := scaleDown num den exponent
  let mantissa := roundDiv n d
  let (mantissa, exponent) :=
    if mantissa = mantissaLimit then (mantissaLimit / 2, exponent + 1) else (mantissa, exponent)
  if exponent > maxExponent then .infinite negative else .finite negative mantissa exponent

/-- The floating point number nearest to `num / den`. -/
def ofRatio (negative : Bool) (num den : Nat) : Binary64 :=
  if num = 0 then .finite negative 0 minExponent
  else
    let low := max ((Nat.log2 num : Int) - Nat.log2 den - 53) minExponent
    let (n, d) := scaleDown num den low
    let exponent := if n / d < mantissaLimit then low else low + 1
    atExponent negative num den exponent

/-- The floating point number nearest to `coefficient · 10 ^ exponent`. -/
def ofScientific (negative : Bool) (coefficient : Nat) (exponent : Int) : Binary64 :=
  let size : Int := (Number.digitText coefficient).length + exponent
  if coefficient = 0 || size < -330 then .finite negative 0 minExponent
  else if size > 310 then .infinite negative
  else if exponent < 0 then ofRatio negative coefficient (Nat.pow 10 exponent.natAbs)
  else ofRatio negative (coefficient * Nat.pow 10 exponent.natAbs) 1

/-- A run of digits, or none before or after a point. -/
def readOptionalRun (cs : List Char) : Option (List Nat) :=
  if cs.isEmpty then some [] else Number.readGrouped cs

/-- Reads the digits around a decimal point. -/
def readPoint (negative : Bool) (cs : List Char) (exponent : Int) : Option Binary64 := do
  let whole ← readOptionalRun (cs.takeWhile (· != '.'))
  let places ← readOptionalRun ((cs.dropWhile (· != '.')).drop 1)
  if whole.isEmpty && places.isEmpty then none
  else some (ofScientific negative (Number.ofDigits (whole ++ places))
    (exponent - places.length))

/-- Reads a signed exponent of at least one digit. -/
def readExponent (cs : List Char) : Option Int := do
  let (negative, rest) := Number.takeSign cs
  let digits ← Number.readGrouped rest
  return if negative then -(Number.ofDigits digits : Int) else Number.ofDigits digits

/-- Reads a number: blanks around, a sign, digits with a point, an exponent, or one of the words
for the numbers that are not finite. -/
def read (s : String) : Option Binary64 :=
  let (negative, rest) := Number.takeSign (Text.trim s.toList)
  let lower := rest.map Char.toLower
  if lower == "inf".toList || lower == "infinity".toList then some (.infinite negative)
  else if lower == "nan".toList then some .notANumber
  else
    let mantissa := rest.takeWhile fun c => c != 'e' && c != 'E'
    match rest.drop mantissa.length with
    | [] => readPoint negative mantissa 0
    | _ :: power => (readExponent power).bind (readPoint negative mantissa)

/-- A finite number as a ratio, without its sign. -/
def ratio (mantissa : Nat) (exponent : Int) : Nat × Nat :=
  if exponent < 0 then (mantissa, Nat.pow 2 exponent.natAbs)
  else (mantissa * Nat.pow 2 exponent.natAbs, 1)

/-- A number as an exact decimal one. -/
def toDecimal : Binary64 → Decimal
  | .finite negative mantissa exponent =>
    if exponent < 0 then .finite negative (mantissa * Nat.pow 5 exponent.natAbs) exponent
    else .finite negative (mantissa * Nat.pow 2 exponent.natAbs) 0
  | .infinite negative => .infinite negative
  | .notANumber => .notANumber

/-- Equality of numbers: both zeros are equal, and what is not a number equals nothing. -/
def sameValue (x y : Binary64) : Bool :=
  x.toDecimal.sameValue y.toDecimal

end Binary64

end EntityMapping
