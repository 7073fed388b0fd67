import EntityMapping.Text.Quoted

/-!
Fresh identifiers.

A new entity gets an IRI that ends in a suffix of its own.  Where suffixes come from is open: any
sequence that does not repeat itself will do.
-/

namespace EntityMapping

/-- A sequence of suffixes, and how many of them were used. -/
structure Suffixes where
  text : Nat → String
  used : Nat

namespace Suffixes

/-- A sequence from its beginning. -/
def ofSequence (text : Nat → String) : Suffixes :=
  ⟨text, 0⟩

/-- The next suffix. -/
def next (s : Suffixes) : String × Suffixes :=
  (s.text s.used, { s with used := s.used + 1 })

end Suffixes

namespace Identifier

/-- A number with some of its bits replaced: `width` bits from bit `low` on take the given
value. -/
def withBits (n low width value : Nat) : Nat :=
  let below := Nat.pow 2 low
  let above := Nat.pow 2 (low + width)
  n / above * above + value * below + n % below

/-- A random 128 bit number marked as such: version four of the standard layout. -/
def mark (n : Nat) : Nat :=
  withBits (withBits n 76 4 4) 62 2 2

/-- A hyphen and 32 hexadecimal digits of a marked random number. -/
def suffix (random : Nat) : String :=
  String.ofList ('-' :: Text.hexDigits 32 (mark random))

/-- Whether a text has the form of such a suffix. -/
def isSuffix (s : String) : Bool :=
  match s.toList with
  | '-' :: digits =>
    digits.length == 32 && digits.all fun c => c.isDigit || ('a' ≤ c && c ≤ 'f')
  | _ => false

end Identifier

end EntityMapping
