import EntityMapping.Number.Grouped

/-!
JSON documents.  Members keep the order in which they stand in the text.
-/

namespace EntityMapping

/-- A JSON value.  A number with a point or an exponent is kept as it is written. -/
inductive Json where
  | null
  | bool (b : Bool)
  | integer (i : Int)
  | real (lexical : String)
  | string (s : String)
  | array (items : List Json)
  | object (members : List (String × Json))
  deriving Repr, Inhabited

namespace Json

/-- The members with one set: a member of the same name keeps its place and gets the new value. -/
def setMember (members : List (String × Json)) (name : String) (value : Json) :
    List (String × Json) :=
  if members.any (·.1 == name) then
    members.map fun (n, v) => if n == name then (n, value) else (n, v)
  else members ++ [(name, value)]

/-- A member of an object. -/
def member? (j : Json) (name : String) : Option Json :=
  match j with
  | .object members => members.lookup name
  | _ => none

/-- A member of an object; null where there is none. -/
def get (j : Json) (name : String) : Json :=
  (j.member? name).getD .null

/-- The text of a string. -/
def string? : Json → Option String
  | .string s => some s
  | _ => none

/-- The items of an array. -/
def items? : Json → Option (List Json)
  | .array items => some items
  | _ => none

/-- The members of an object. -/
def members? : Json → Option (List (String × Json))
  | .object members => some members
  | _ => none

end Json

end EntityMapping
