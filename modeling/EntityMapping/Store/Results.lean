import EntityMapping.Json.Reader
import EntityMapping.Store
import EntityMapping.Value

/-!
Results of queries as JSON documents.

A result lists the names of its columns and its rows; a row lists the names that it binds with
their terms.  The answer to a question of yes or no counts as one row without columns.
-/

namespace EntityMapping.Results

/-- A member that may be missing or null, and has to be a string otherwise. -/
def optionalText (j : Json) (name : String) : Option (Option String) :=
  match j.member? name with
  | none | some .null => some none
  | some (.string s) => some (some s)
  | some _ => none

/-- The datum that a scalar stands for; null stands for none. -/
def scalar? : Json → Option Value
  | .string s => some (.datum (.text s))
  | .integer i => some (.datum (.integer i))
  | .bool b => some (.datum (.boolean b))
  | .real lexical => (Binary64.read lexical).map fun x => .datum (.double x)
  | .null => some .nothing
  | _ => none

/-- A literal: its text with a language or a datatype, not both. -/
def literal? (j : Json) : Option Literal := do
  let value ← scalar? (← j.member? "value")
  let language ← optionalText j "xml:lang"
  let datatype ← optionalText j "datatype"
  match language.filter (!·.isEmpty), datatype, value with
  | none, _, v => return v.toLiteral datatype
  | some tag, none, .datum (.text s) =>
    if Literal.isTag tag then return Literal.tagged s tag else none
  | _, _, _ => none

/-- A term by its type. -/
def term? (j : Json) : Option Term := do
  match ← (← j.member? "type").string? with
  | "uri" => return .iri (← (← j.member? "value").string?)
  | "literal" => return .literal (← literal? j)
  | "typed-literal" =>
    let value ← scalar? (← j.member? "value")
    return .literal (value.toLiteral (some (← (← j.member? "datatype").string?)))
  | "bnode" => return .blank (← (← j.member? "value").string?)
  | _ => none

/-- The names that a row binds with their terms. -/
def bindings? : Json → Option (List (String × Term))
  | .object members => members.mapM fun (name, j) => (term? j).map (name, ·)
  | _ => none

/-- The rows of a result; a row that binds nothing is none. -/
def rows? (j : Json) : Option (List Row) := do
  if (j.member? "boolean").isSome then return [[]]
  let bindings ← (← (← (← j.member? "results").member? "bindings").items?).mapM bindings?
  let names ← (← (← (← j.member? "head").member? "vars").items?).mapM Json.string?
  return (bindings.filter (!·.isEmpty)).map fun row =>
    (names.map fun name => (name, row.lookup name))

/-- Reads the text of a result. -/
def read (s : String) : Option (List Row) := do
  rows? (← Json.read s)

end EntityMapping.Results
