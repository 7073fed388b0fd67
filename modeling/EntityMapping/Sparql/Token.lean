/-!
The words of the query language.
-/

namespace EntityMapping.Sparql

/-- One token of a request. -/
inductive Token where
  /-- A reference between angle brackets. -/
  | iri (reference : String)
  /-- A prefixed name, its local part without escapes. -/
  | name (label localName : String)
  /-- A blank node by its label. -/
  | blank (label : String)
  /-- A variable without its mark. -/
  | var (name : String)
  /-- A quoted text, unescaped. -/
  | text (s : String)
  /-- A language tag without its mark. -/
  | tag (s : String)
  /-- A number as it is written, with the datatype that its form has. -/
  | number (lexical datatype : String)
  /-- A keyword or a function name. -/
  | word (s : String)
  /-- Punctuation or an operator. -/
  | sign (s : String)
  deriving DecidableEq, Repr

/-- How many tokens a token may turn into.  The brackets of a reference may be operators around what
they enclose. -/
def Token.supply : Token → Nat
  | .iri reference => reference.length + 2
  | _ => 1

/-- How many tokens a list of tokens may turn into. -/
def supply : List Token → Nat
  | [] => 0
  | t :: ts => supply ts + t.supply

theorem Token.supply_pos (t : Token) : 0 < t.supply := by
  cases t <;> simp [supply]

theorem supply_append (ts us : List Token) : supply (ts ++ us) = supply ts + supply us := by
  induction ts with
  | nil => simp [supply]
  | cons t ts ih => simp only [List.cons_append, supply, ih]; omega

theorem length_le_supply (ts : List Token) : ts.length ≤ supply ts := by
  induction ts with
  | nil => exact Nat.le_refl 0
  | cons t ts ih => exact Nat.add_le_add ih t.supply_pos

end EntityMapping.Sparql
