import EntityMapping.MappingError
import EntityMapping.Term.N3
import EntityMapping.Text.Blank

/-!
The values that callers hand in and get back: nothing, data, terms, entities, and lists of these.
-/

namespace EntityMapping

/-- A value of an application.  An entity is known by its place among the entities of its session
and brings its IRI along. -/
inductive Value where
  | nothing
  | datum (d : Datum)
  | term (t : Term)
  | entity (id : Nat) (uri : String)
  | list (items : List Value)
  deriving Repr

namespace Value

/-- The name of a value's type in messages. -/
def typeName : Value → String
  | .nothing => "NoneType"
  | .datum (.text _) => "str"
  | .datum (.integer _) => "int"
  | .datum (.boolean _) => "bool"
  | .datum (.double _) => "float"
  | .datum (.decimal _) => "Decimal"
  | .datum (.date _) => "date"
  | .term (.iri _) => "URIRef"
  | .term (.literal _) => "Literal"
  | .term (.blank _) => "BNode"
  | .term (.var _) => "Variable"
  | .entity _ _ => "SemanticEntity"
  | .list _ => "list"

/-- The text of a value that is a text: a string, or a term by its own text. -/
def asText? : Value → Option String
  | .datum (.text s) => some s
  | .term t => some t.plainText
  | _ => none

/-- The text of a single datum as part of a list. -/
def shownDatum : Datum → String
  | .text s => Text.quoted s
  | .boolean b => if b then "True" else "False"
  | .decimal d => "Decimal('" ++ d.text ++ "')"
  | d => d.lexical

/-- The text of a single datum. -/
def datumText : Datum → String
  | .boolean b => if b then "True" else "False"
  | d => d.lexical

mutual

/-- The text of a value as part of a list. -/
def shown : Value → String
  | .nothing => "None"
  | .datum d => shownDatum d
  | .term t => t.n3
  | .entity _ uri => uri
  | .list items => "[" ++ ", ".intercalate (shownAll items) ++ "]"

/-- The texts of the items of a list. -/
def shownAll : List Value → List String
  | [] => []
  | v :: rest => shown v :: shownAll rest

end

/-- The text of any value. -/
def text : Value → String
  | .nothing => "None"
  | .datum d => datumText d
  | .term t => t.plainText
  | .entity _ uri => uri
  | .list items => shown (.list items)

/-- The literal of a value, with or without a datatype.  A literal keeps itself. -/
def toLiteral (v : Value) (datatype : Option String) : Literal :=
  match v with
  | .nothing => Literal.ofNothing datatype
  | .datum d => Literal.ofDatum d datatype
  | .term (.literal l) => l
  | .term t => Literal.ofText t.plainText datatype
  | .entity _ uri => ⟨uri, datatype, none, none⟩
  | .list items => ⟨text (.list items), datatype, none, none⟩

/-- Whether a value counts as something: not nothing, not empty and not a zero. -/
def isTruthy : Value → Bool
  | .nothing => false
  | .datum d => d.isTruthy
  | .term (.literal l) => l.isTruthy
  | .term t => !t.plainText.isEmpty
  | .entity _ _ => true
  | .list items => !items.isEmpty

/-- The value that a term stands for: a literal's value, or else the term itself. -/
def ofTerm : Term → Value
  | .literal l =>
    match l.value with
    | some d => .datum d
    | none => .term (.literal l)
  | t => .term t

/-- Whether two values are equal: numbers by value across their types, terms as terms, entities
as objects. -/
def same : Value → Value → Bool
  | .nothing, .nothing => true
  | .datum a, .datum b =>
    match a.asNumber?, b.asNumber? with
    | some x, some y => x.sameValue y
    | _, _ => a.sameValue b
  | .term a, .term b => a.same b
  | .entity a _, .entity b _ => a == b
  | _, _ => false

/-- The values of the list, each once, the first of equal ones kept. -/
def distinct (vs : List Value) : List Value :=
  vs.foldl (fun seen v => if seen.any v.same then seen else seen ++ [v]) []

end Value

end EntityMapping
