import EntityMapping.Json

/-!
Validation of documents.

A check either gives a value or lists everything that is wrong, in the order in which it stands in
the document.  Nothing is coerced: a number is no text.
-/

namespace EntityMapping

/-- What can be wrong at one place of a document. -/
inductive IssueKind where
  | missing
  | notText
  | notList
  | notDictionary
  | notModel
  /-- The text is none of the permitted ones. -/
  | notChoice
  /-- The document is no JSON text. -/
  | malformed
  deriving DecidableEq, Repr

/-- Something that is wrong, and where. -/
structure Issue where
  path : List String
  kind : IssueKind
  deriving DecidableEq, Repr

/-- A value, or everything that is wrong. -/
abbrev Checked (α : Type) := Except (List Issue) α

namespace Checked

variable {α β : Type}

/-- Both of two results; the issues of the first come first. -/
def both (a : Checked α) (b : Checked β) : Checked (α × β) :=
  match a, b with
  | .ok x, .ok y => .ok (x, y)
  | .ok _, .error ys => .error ys
  | .error xs, .ok _ => .error xs
  | .error xs, .error ys => .error (xs ++ ys)

/-- All of several results. -/
def all : List (Checked α) → Checked (List α)
  | [] => .ok []
  | a :: rest => (both a (all rest)).map fun (x, xs) => x :: xs

end Checked

/-- A check of a value at a place of a document. -/
abbrev Check (α : Type) := List String → Json → Checked α

namespace Check

variable {α : Type}

/-- Something is wrong here. -/
def issue (path : List String) (kind : IssueKind) : Checked α :=
  .error [⟨path, kind⟩]

/-- A text. -/
def text : Check String
  | _, .string s => .ok s
  | path, _ => issue path .notText

/-- Nothing, or what another check accepts. -/
def nullable (check : Check α) : Check (Option α)
  | _, .null => .ok none
  | path, j => (check path j).map some

/-- A text of a fixed set of texts. -/
def choice (ofText : String → Option α) : Check α
  | path, .string s =>
    match ofText s with
    | some a => .ok a
    | none => issue path .notChoice
  | path, _ => issue path .notChoice

/-- A list of what another check accepts. -/
def list (check : Check α) : Check (List α)
  | path, .array items =>
    Checked.all (items.zipIdx.map fun (item, index) => check (path ++ [toString index]) item)
  | path, _ => issue path .notList

/-- Names with what another check accepts. -/
def dictionary (check : Check α) : Check (List (String × α))
  | path, .object members =>
    Checked.all (members.map fun (name, j) =>
      (check (path ++ [name]) j).map fun a => (name, a))
  | path, _ => issue path .notDictionary

/-- An object; what its members have to be is up to another check. -/
def model (check : List String → List (String × Json) → Checked α) : Check α
  | path, .object members => check path members
  | path, _ => issue path .notModel

/-- A member that has to be there. -/
def required (members : List (String × Json)) (name : String) (check : Check α)
    (path : List String) : Checked α :=
  match members.lookup name with
  | some j => check (path ++ [name]) j
  | none => issue (path ++ [name]) .missing

/-- A member that may be missing. -/
def withDefault (members : List (String × Json)) (name : String) (fallback : α)
    (check : Check α) (path : List String) : Checked α :=
  match members.lookup name with
  | some j => check (path ++ [name]) j
  | none => .ok fallback

end Check

end EntityMapping
