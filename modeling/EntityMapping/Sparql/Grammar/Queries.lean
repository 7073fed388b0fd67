import EntityMapping.Sparql.Grammar.Groups
import EntityMapping.Sparql.Lexer

/-!
Whole queries.
-/

namespace EntityMapping.Sparql.Grammar

open EntityMapping.Sparql.Parser

/-- One declaration of a prologue. -/
def declaration (env : Prologue) : Parser Prologue :=
  (do
    keyword "BASE"
    let base ← satisfy fun
      | .iri reference => some reference
      | _ => none
    return { env with base := some base }) <|>
  (do
    keyword "PREFIX"
    let label ← satisfy fun
      | .name label localName => if localName = "" then some label else none
      | _ => none
    let reference ← satisfy fun
      | .iri reference => some reference
      | _ => none
    return env.declare label (env.resolve reference))

/-- Declarations in order, a bounded number of them. -/
def prologueWithin : (fuel : Nat) → Prologue → Parser Prologue
  | 0, env => return env
  | fuel + 1, env => do
    match ← optionally (declaration env) with
    | some env => prologueWithin fuel env
    | none => return env

/-- The declarations that a request begins with. -/
def prologue (env : Prologue) : Parser Prologue := do
  prologueWithin (← remaining) env

variable (env : Prologue)

/-- A selection with the graphs that it is asked of. -/
def selectQuery : Parser Query := do
  let fuel ← nestingFuel
  keyword "SELECT"
  let repetition ← repetition
  let columns ← columnsWithin env fuel
  let _ ← many (datasetClause env)
  let _ ← optionally (keyword "WHERE")
  let body ← groupWithin env fuel
  let modifiers ← modifiersWithin env fuel
  let values ← optionally (do keyword "VALUES"; dataBlock env)
  let (pattern, names) :=
    Query.selection repetition columns body.algebra { modifiers with values := values }
  return .select pattern names

/-- What may stand behind any pattern. -/
def modifiers : Parser Unit := do
  let _ ← modifiersWithin env (← nestingFuel)
  let _ ← optionally (do keyword "VALUES"; dataBlock env)

/-- Triples without paths in braces, perhaps none. -/
def template : Parser (List TriplePattern) :=
  between "\x7b" "\x7d" do
    return (← optionally (triplesBlock env (predicate env))).getD []

/-- A question with a yes or no answer. -/
def askQuery : Parser Query := do
  keyword "ASK"
  let _ ← many (datasetClause env)
  let _ ← optionally (keyword "WHERE")
  let _ ← group env
  modifiers env
  return .ask

/-- A query whose answer is a graph. -/
def constructQuery : Parser Query := do
  keyword "CONSTRUCT"
  (do
    let _ ← template env
    let _ ← many (datasetClause env)
    let _ ← optionally (keyword "WHERE")
    let _ ← group env
    modifiers env) <|>
  (do
    let _ ← many (datasetClause env)
    keyword "WHERE"
    let _ ← template env
    modifiers env)
  return .construct

/-- A query for what is known about some resources. -/
def describeQuery : Parser Query := do
  keyword "DESCRIBE"
  (do let _ ← atLeastOne (varOrIri env)) <|> sign "*"
  let _ ← many (datasetClause env)
  let _ ← optionally do
    let _ ← optionally (keyword "WHERE")
    let _ ← group env
  modifiers env
  return .describe

/-- A query of any form behind its declarations. -/
def query : Parser Query := do
  let env ← prologue env
  selectQuery env <|> constructQuery env <|> describeQuery env <|> askQuery env

end EntityMapping.Sparql.Grammar

namespace EntityMapping.Sparql

/-- Reads a query, with the given declarations in force before its own. -/
def Query.read (env : Prologue) (s : String) : Option Query := do
  (Grammar.query env).parseAll (← Lexer.tokens s)

end EntityMapping.Sparql
