import EntityMapping.Analysis
import EntityMapping.Template

/-!
Properties of entities: how a value is kept and how it is written as a term.
-/

namespace EntityMapping

/-- What the values of a property are. -/
inductive PropertyKind where
  | object
  | literal
  deriving DecidableEq, Repr

/-- How many values a property has: exactly one, one or none, or any number. -/
inductive Multiplicity where
  | one
  | optional
  | many
  deriving DecidableEq, Repr

namespace PropertyKind

/-- The name of a kind. -/
def name : PropertyKind → String
  | .object => "object"
  | .literal => "literal"

/-- The kind of a name. -/
def ofName? (s : String) : Option PropertyKind :=
  [.object, .literal].find? fun kind => kind.name == s

end PropertyKind

namespace Multiplicity

/-- The mark of a multiplicity. -/
def mark : Multiplicity → String
  | .one => "1"
  | .optional => "?"
  | .many => "*"

/-- The multiplicity of a mark. -/
def ofMark? (s : String) : Option Multiplicity :=
  [.one, .optional, .many].find? fun m => m.mark == s

end Multiplicity

/-- One property of an entity type. -/
structure Property where
  name : String
  kind : PropertyKind
  multiplicity : Multiplicity
  /-- The predicate that links entities to the values, if there is one. -/
  predicate : Option String
  /-- The type of the entities or the datatype of the literals. -/
  datatype : String
  deriving DecidableEq, Repr

namespace Property

/-- The property of a variable. -/
def ofVariable (name : String) (p : VariableProperties) : Property where
  name := name
  kind := if p.isObjectReference then .object else .literal
  multiplicity :=
    if !p.functional then .many else if p.nullable then .optional else .one
  predicate := p.predicate
  datatype := p.datatype

/-- Whether there is at most one value. -/
def isFunctional (p : Property) : Bool :=
  p.multiplicity != .many

/-- Whether the value may be missing. -/
def isNullable (p : Property) : Bool :=
  p.multiplicity == .optional

/-- Whether values can be written: there is a predicate to write them with. -/
def isWritable (p : Property) : Bool :=
  p.predicate.isSome

/-- The datatype that values are given; none where it is open. -/
def literalDatatype (p : Property) : Option String :=
  if p.datatype == Analysis.anyLiteral then none else some p.datatype

/-- The term of a value that refers to an entity. -/
def referenceTerm (p : Property) : Value → Except MappingError Term
  | .entity _ uri => checkIri uri
  | v =>
    match v.asText? with
    | some s => checkIri s
    | none => .error (.notAnIri p.name v.typeName)

/-- The literal of a value. -/
def literalTerm (p : Property) : Value → Except MappingError Term
  | .term (.literal l) => .ok (.literal l)
  | .term (.iri s) => .error (.notALiteral p.name (Value.term (.iri s)).typeName)
  | .entity id uri => .error (.notALiteral p.name (Value.entity id uri).typeName)
  | v => .ok (.literal (v.toLiteral p.literalDatatype))

/-- The term that a value is written as. -/
def toTerm (p : Property) (v : Value) : Except MappingError Term :=
  match p.kind with
  | .object => p.referenceTerm v
  | .literal => p.literalTerm v

/-- Whether a stored literal stands for a value of the same type as a given one. -/
def sameType (v : Value) (l : Literal) : Bool :=
  match v, l.value with
  | .datum a, some b => a.sameType b
  | _, _ => false

/-- Whether a stored literal stands for a given value. -/
def standsFor (v : Value) (l : Literal) : Bool :=
  match v, l.value with
  | .datum a, some b => a.sameType b && a.sameValue b
  | _, _ => false

/-- The literals among terms. -/
def literals (terms : List Term) : List Literal :=
  terms.filterMap fun
    | .literal l => some l
    | _ => none

/-- The term that a value is written as beside the terms that are stored.  A value that some
stored literal stands for is that very literal, so that reading and writing back changes nothing.
Where the datatype is open, a new value takes the datatype of a stored literal of its type. -/
def termFor (p : Property) (v : Value) (stored : List Term) : Except MappingError Term :=
  match p.kind, v with
  | .object, _ => p.toTerm v
  | .literal, .term (.literal l) => .ok (.literal l)
  | .literal, _ =>
    match (literals stored).find? (standsFor v) with
    | some l => .ok (.literal l)
    | none =>
      let typed := ((literals stored).filter (sameType v)).findSome? Literal.datatype
      match if p.literalDatatype.isNone then typed else none with
      | some datatype => .ok (.literal (v.toLiteral (some datatype)))
      | none => p.toTerm v

end Property

end EntityMapping
