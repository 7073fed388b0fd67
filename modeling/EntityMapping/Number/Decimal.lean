import EntityMapping.Number.Grouped
import EntityMapping.Text.Blank

/-!
Decimal numbers that remember their trailing zeros: `1.50` and `1.5` are equal numbers with
different texts.
-/

namespace EntityMapping

/-- A decimal number: `coefficient · 10 ^ exponent` with a sign of its own, or no number. -/
inductive Decimal where
  | finite (negative : Bool) (coefficient : Nat) (exponent : Int)
  | infinite (negative : Bool)
  | notANumber
  deriving DecidableEq, Repr

namespace Decimal

open Number (takeSign ofDigits digitText)

/-- The value of each digit of an unseparated run; the run may be empty. -/
def readRun (cs : List Char) : Option (List Nat) :=
  cs.mapM Text.digitValue?

/-- Reads the digits around a decimal point. -/
def readPoint (negative : Bool) (cs : List Char) (exponent : Int) : Option Decimal := do
  let whole ← readRun (cs.takeWhile (· != '.'))
  let places ← readRun ((cs.dropWhile (· != '.')).drop 1)
  if whole.isEmpty && places.isEmpty then none
  else some (.finite negative (ofDigits (whole ++ places)) (exponent - places.length))

/-- Reads a signed exponent of at least one digit. -/
def readExponent (cs : List Char) : Option Int := do
  let (negative, rest) := takeSign cs
  let digits ← readRun rest
  if digits.isEmpty then none
  else some (if negative then -(ofDigits digits : Int) else ofDigits digits)

/-- Reads a decimal number: blanks around, a sign, digits with a point, an exponent; underscores
are skipped wherever they stand. -/
def read (s : String) : Option Decimal :=
  let (negative, rest) := takeSign ((Text.trim s.toList).filter (· != '_'))
  let lower := rest.map Char.toLower
  if lower == "inf".toList || lower == "infinity".toList then some (.infinite negative)
  else if lower == "nan".toList || lower == "snan".toList then some .notANumber
  else
    let mantissa := rest.takeWhile fun c => c != 'e' && c != 'E'
    match rest.drop mantissa.length with
    | [] => readPoint negative mantissa 0
    | _ :: power => (readExponent power).bind (readPoint negative mantissa)

/-- The digits with a point before the last `places` of them. -/
def pointText (digits : List Char) (places : Nat) : List Char :=
  let padded := List.replicate (places + 1 - digits.length) '0' ++ digits
  let split := padded.length - places
  padded.take split ++ '.' :: padded.drop split

/-- The plain notation: no exponent, trailing zeros kept. -/
def text : Decimal → String
  | .finite negative coefficient exponent =>
    let digits := digitText coefficient
    let body :=
      if exponent < 0 then pointText digits exponent.natAbs
      else if coefficient == 0 then digits
      else digits ++ List.replicate exponent.natAbs '0'
    String.ofList ((if negative then ['-'] else []) ++ body)
  | .infinite negative => if negative then "-Infinity" else "Infinity"
  | .notANumber => "NaN"

/-- The signed value in units of `10 ^ low`, for an exponent at or above `low`. -/
def scaled (negative : Bool) (coefficient : Nat) (exponent low : Int) : Int :=
  let units : Int := (coefficient * Nat.pow 10 (exponent - low).toNat : Nat)
  if negative then -units else units

/-- The order of two numbers by value; there is none where one is not a number. -/
def compare? : Decimal → Decimal → Option Ordering
  | .notANumber, _ | _, .notANumber => none
  | .infinite a, .infinite b => some (Ord.compare (!a).toNat (!b).toNat)
  | .infinite a, .finite .. => some (if a then .lt else .gt)
  | .finite .., .infinite b => some (if b then .gt else .lt)
  | .finite a c e, .finite b d f =>
    some (Ord.compare (scaled a c e (min e f)) (scaled b d f (min e f)))

/-- Equality of numbers: by value, whatever the number of trailing zeros. -/
def sameValue (x y : Decimal) : Bool :=
  compare? x y == some .eq

/-- The whole number as a decimal one. -/
def ofInt (i : Int) : Decimal :=
  .finite (i < 0) i.natAbs 0

end Decimal

end EntityMapping
