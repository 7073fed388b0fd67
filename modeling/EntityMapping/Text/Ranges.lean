/-!
Membership of a code point in a table of ranges.
-/

namespace EntityMapping.Text

/-- Whether some inclusive range of the table holds the number. -/
def inRanges (ranges : List (Nat × Nat)) (n : Nat) : Bool :=
  ranges.any fun (first, last) => first ≤ n && n ≤ last

end EntityMapping.Text
