import EntityMapping.Sparql.Grammar.Queries
import EntityMapping.Sparql.Update

/-!
Whole updates: steps behind declarations, with semicolons between them.
-/

namespace EntityMapping.Sparql.Grammar

open EntityMapping.Sparql.Parser

variable (env : Prologue)

/-- Plain data to be added. -/
def insertData : Parser UpdateStep := do
  keyword "INSERT"
  keyword "DATA"
  return .insertData (← template env)

/-- Plain data to be removed. -/
def deleteData : Parser UpdateStep := do
  keyword "DELETE"
  keyword "DATA"
  return .deleteData (← template env)

/-- Triples to be removed wherever they match. -/
def deleteWhere : Parser UpdateStep := do
  keyword "DELETE"
  keyword "WHERE"
  return .deleteWhere (← template env)

/-- Templates to be removed and added for every solution of a pattern. -/
def modify : Parser UpdateStep := do
  let (removed, added) ←
    (do
      keyword "DELETE"
      let removed ← template env
      let added ← optionally (do keyword "INSERT"; template env)
      return (removed, added.getD [])) <|>
    (do
      keyword "INSERT"
      return ([], ← template env))
  keyword "WHERE"
  return .modify removed added (← group env).algebra

/-- One step. -/
def updateStep : Parser UpdateStep :=
  deleteWhere env <|> deleteData env <|> insertData env <|> modify env

/-- Steps with semicolons between them; the last semicolon may end the update.  Declarations hold
for all steps behind them. -/
def stepsWithin : (fuel : Nat) → Prologue → Parser Update
  | 0, _ => return []
  | fuel + 1, env => do
    let env ← prologue env
    match ← optionally (updateStep env) with
    | none => return []
    | some step =>
      match ← optionally (sign ";") with
      | none => return [step]
      | some _ => return step :: (← stepsWithin fuel env)

/-- An update of one step at least. -/
def update : Parser Update := do
  match ← stepsWithin ((← remaining) + 1) env with
  | [] => failure
  | steps => return steps

end EntityMapping.Sparql.Grammar

namespace EntityMapping.Sparql

/-- Reads an update, with the given declarations in force before its own. -/
def Update.read (env : Prologue) (s : String) : Option Update := do
  (Grammar.update env).parseAll (← Lexer.tokens s)

end EntityMapping.Sparql
