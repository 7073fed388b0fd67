import EntityMapping.Number.Grouped
import EntityMapping.Text.Blank

/-!
Integers as text.  Reading is generous (blanks around, a sign, leading zeros, grouped digits of
any script); writing is canonical.
-/

namespace EntityMapping.Number

/-- Reads an integer of any size. -/
def readInteger (s : String) : Option Int :=
  let (negative, rest) := takeSign (Text.trim s.toList)
  (readGrouped rest).map fun digits =>
    if negative then -(ofDigits digits : Int) else ofDigits digits

/-- The canonical text: a minus where needed, no leading zeros. -/
def integerText (i : Int) : String :=
  String.ofList ((if i < 0 then ['-'] else []) ++ digitText i.natAbs)

end EntityMapping.Number
