import EntityMapping.Number.Grouped

/-!
Calendar dates as text.
-/

namespace EntityMapping

/-- A day of the calendar. -/
structure Date where
  year : Nat
  month : Nat
  day : Nat
  deriving DecidableEq, Repr

namespace Date

/-- A leap year has a 29 February. -/
def isLeap (year : Nat) : Bool :=
  year % 4 == 0 && (year % 100 != 0 || year % 400 == 0)

/-- The number of days of a month. -/
def daysIn (year month : Nat) : Nat :=
  if month == 2 then (if isLeap year then 29 else 28)
  else if [4, 6, 9, 11].contains month then 30
  else 31

/-- A date of the years 1 to 9999, if there is such a day. -/
def ofParts? (year month day : Nat) : Option Date :=
  if 1 ≤ year && 1 ≤ month && month ≤ 12 && 1 ≤ day && day ≤ daysIn year month then
    some ⟨year, month, day⟩
  else none

/-- Reads a number of exactly the given count of plain digits. -/
def readDigits (cs : List Char) : Option Nat :=
  if cs.all Char.isDigit then some (Number.ofDigits (cs.map fun c => c.toNat - 48)) else none

/-- Cuts off a time zone: a final `Z`, or an offset behind the day. -/
def dropZone (cs : List Char) : List Char :=
  let cs := if cs.getLast? == some 'Z' || cs.getLast? == some 'z' then cs.dropLast else cs
  if cs.contains 'T' then cs.takeWhile (· != 'T')
  else if cs.length == 16 && (cs.drop 10).head?.any (fun c => c == '+' || c == '-') then cs.take 10
  else cs

/-- Reads `YYYY-MM-DD`, with or without a time zone. -/
def read (s : String) : Option Date :=
  match dropZone s.toList with
  | [y₁, y₂, y₃, y₄, '-', m₁, m₂, '-', d₁, d₂] => do
    ofParts? (← readDigits [y₁, y₂, y₃, y₄]) (← readDigits [m₁, m₂]) (← readDigits [d₁, d₂])
  | _ => none

/-- The number with leading zeros up to a width. -/
def padded (width n : Nat) : List Char :=
  let digits := Number.digitText n
  List.replicate (width - digits.length) '0' ++ digits

/-- The text `YYYY-MM-DD`. -/
def text (d : Date) : String :=
  String.ofList (padded 4 d.year ++ '-' :: padded 2 d.month ++ '-' :: padded 2 d.day)

end Date

end EntityMapping
