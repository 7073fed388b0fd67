import EntityMapping.Term.Literal

/-!
Comparing terms in conditions and in orderings.

Numbers compare by value, whatever their datatypes.  Any other two literals compare by datatype
first, then by language, by value and by text; so every two literals of readable datatypes can be
ordered.  Between terms of different kinds an ordering puts blank nodes before IRIs and IRIs before
literals.
-/

namespace EntityMapping.Sparql

/-- The opposite of an order. -/
def reverseOrder : Ordering → Ordering
  | .lt => .gt
  | .eq => .eq
  | .gt => .lt

end EntityMapping.Sparql

namespace EntityMapping.Literal

/-- The number that a literal of a numeric datatype stands for. -/
def number? (l : Literal) : Option Decimal :=
  match l.value with
  | some (.boolean _) => none
  | some v => v.asNumber?
  | none => none

/-- The datatype of a literal for comparing: text without a datatype is of the datatype of text. -/
def comparedDatatype (l : Literal) : String :=
  l.datatype.getD Xsd.string

/-- The order of two values of one type, if they have one. -/
def compareData : Datum → Datum → Option Ordering
  | .text a, .text b => some (compare a b)
  | .boolean a, .boolean b => some (compare a.toNat b.toNat)
  | .date a, .date b =>
    some ((compare a.year b.year).then <|
      (compare a.month b.month).then (compare a.day b.day))
  | a, b =>
    match a.asNumber?, b.asNumber? with
    | some x, some y => x.compare? y
    | _, _ => none

/-- Whether two literals stand for equal values.  Nothing is known about different texts of a
datatype that cannot be read. -/
def equalValue? (a b : Literal) : Option Bool :=
  match a.number?, b.number? with
  | some x, some y => some (x.sameValue y)
  | _, _ =>
    if foldTag a.language != foldTag b.language then some false
    else if a.comparedDatatype == Xsd.string && b.comparedDatatype == Xsd.string then
      some (a.lexical == b.lexical)
    else if a.comparedDatatype != b.comparedDatatype then some false
    else
      match a.value, b.value with
      | some v, some w => some (compareData v w == some .eq)
      | _, _ => if a.lexical == b.lexical then some true else none

/-- The order of language tags: no tag comes first. -/
def compareTags : Option String → Option String → Ordering
  | none, none => .eq
  | none, some _ => .lt
  | some _, none => .gt
  | some a, some b => compare a b

/-- The order of two literals. -/
def order (a b : Literal) : Ordering :=
  match a.number?, b.number? with
  | some x, some y => (x.compare? y).getD .eq
  | _, _ =>
    let byValue :=
      match a.value, b.value with
      | some v, some w => (compareData v w).getD .eq
      | _, _ => .eq
    (compare a.comparedDatatype b.comparedDatatype).then <|
      (compareTags a.language b.language).then <|
        byValue.then <| (compare a.lexical b.lexical).then <|
          compare (a.datatype.getD "") (b.datatype.getD "")

end EntityMapping.Literal

namespace EntityMapping.Term

/-- The place of a kind of term in an ordering; what is unbound comes first. -/
def rank : Option Term → Nat
  | none => 0
  | some (.var _) => 0
  | some (.blank _) => 1
  | some (.iri _) => 2
  | some (.literal _) => 3

/-- The order of two terms in an ordering of solutions. -/
def order (a b : Option Term) : Ordering :=
  (compare (rank a) (rank b)).then <|
    match a, b with
    | some (.literal l), some (.literal m) => l.order m
    | some s, some t => compare s.plainText t.plainText
    | _, _ => .eq

/-- Whether two terms are equal in a condition; unknown for texts of datatypes that cannot be
read. -/
def equalValue? : Term → Term → Option Bool
  | .literal a, .literal b => a.equalValue? b
  | a, b => some (a.same b)

end EntityMapping.Term
