import EntityMapping.Date
import EntityMapping.Number.Binary64

/-!
Terms: IRIs, literals, blank nodes and variables.

A literal is its text with a datatype or a language tag.  Beside these it carries the value it
stands for, if it stands for one; two literals are the same term when text, datatype and language
agree, whatever their values.
-/

namespace EntityMapping

/-- A value that a literal can stand for. -/
inductive Datum where
  | text (s : String)
  | integer (i : Int)
  | boolean (b : Bool)
  | double (x : Binary64)
  | decimal (d : Decimal)
  | date (d : Date)
  deriving DecidableEq, Repr

namespace Datum

/-- Whether two values are of one type and equal in it. -/
def sameValue : Datum → Datum → Bool
  | .text a, .text b => a == b
  | .integer a, .integer b => a == b
  | .boolean a, .boolean b => a == b
  | .double a, .double b => a.sameValue b
  | .decimal a, .decimal b => a.sameValue b
  | .date a, .date b => a == b
  | _, _ => false

/-- Whether two values are of one type. -/
def sameType : Datum → Datum → Bool
  | .text _, .text _ | .integer _, .integer _ | .boolean _, .boolean _ | .double _, .double _
  | .decimal _, .decimal _ | .date _, .date _ => true
  | _, _ => false

/-- A truth value counts as the number one or zero among numbers. -/
def asNumber? : Datum → Option Decimal
  | .integer i => some (.ofInt i)
  | .boolean b => some (.ofInt (if b then 1 else 0))
  | .double x => some x.toDecimal
  | .decimal d => some d
  | _ => none

/-- Whether a value counts as something: no empty text and no zero. -/
def isTruthy : Datum → Bool
  | .text s => !s.isEmpty
  | .date _ => true
  | d => !(d.asNumber?.any fun n => n.sameValue (.ofInt 0))

end Datum

/-- A literal term and the value it stands for. -/
structure Literal where
  lexical : String
  datatype : Option String
  language : Option String
  value : Option Datum
  deriving DecidableEq, Repr

/-- A node of a graph or of a graph pattern. -/
inductive Term where
  | iri (iri : String)
  | literal (literal : Literal)
  | blank (label : String)
  | var (name : String)
  deriving DecidableEq, Repr

/-- Language tags are compared without regard to case. -/
def foldTag (tag : Option String) : Option (List Char) :=
  tag.map fun t => t.toList.map Char.toLower

namespace Literal

/-- Whether a literal counts as something: by its value or, failing that, by its text. -/
def isTruthy (l : Literal) : Bool :=
  match l.value with
  | some d => d.isTruthy
  | none => !l.lexical.isEmpty

/-- Whether two literals are one term: text, datatype and language agree. -/
def same (a b : Literal) : Bool :=
  a.lexical == b.lexical && a.datatype == b.datatype && foldTag a.language == foldTag b.language

@[simp] theorem same_refl (a : Literal) : a.same a = true := by
  simp [same]

theorem same_comm (a b : Literal) : a.same b = b.same a := by
  simp only [same, Bool.beq_comm (a := a.lexical), Bool.beq_comm (a := a.datatype),
    Bool.beq_comm (a := foldTag a.language)]

theorem same_trans {a b c : Literal} (hab : a.same b = true) (hbc : b.same c = true) :
    a.same c = true := by
  simp only [same, Bool.and_eq_true, beq_iff_eq] at *
  exact ⟨⟨hab.1.1.trans hbc.1.1, hab.1.2.trans hbc.1.2⟩, hab.2.trans hbc.2⟩

end Literal

namespace Term

/-- Whether two terms are the same: literals by text, datatype and language. -/
def same : Term → Term → Bool
  | .iri a, .iri b => a == b
  | .literal a, .literal b => a.same b
  | .blank a, .blank b => a == b
  | .var a, .var b => a == b
  | _, _ => false

@[simp] theorem same_refl (t : Term) : t.same t = true := by
  cases t <;> simp [same]

theorem same_comm (a b : Term) : a.same b = b.same a := by
  cases a <;> cases b <;> simp [same, Literal.same_comm, Bool.beq_comm]

theorem same_trans {a b c : Term} (hab : a.same b = true) (hbc : b.same c = true) :
    a.same c = true := by
  cases a <;> cases b <;> cases c <;> simp_all [same]
  exact Literal.same_trans hab hbc

/-- Whether a list holds a term. -/
def memberOf (t : Term) (ts : List Term) : Bool :=
  ts.any t.same

/-- The list with the term in it, at the end if it is new. -/
def insertInto (t : Term) (ts : List Term) : List Term :=
  if t.memberOf ts then ts else ts ++ [t]

/-- The list without the term. -/
def eraseFrom (t : Term) (ts : List Term) : List Term :=
  ts.filter fun u => !t.same u

/-- The text of a term: its IRI, its lexical text, its label or its name. -/
def plainText : Term → String
  | .iri s => s
  | .literal l => l.lexical
  | .blank s => s
  | .var s => s

end Term

end EntityMapping
