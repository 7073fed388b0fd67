import EntityMapping.Sparql.Grammar.Triples
import EntityMapping.Sparql.Lexer
import EntityMapping.Sparql.Query

/-!
Expressions, groups and nested selections.
-/

namespace EntityMapping.Sparql.Grammar

open EntityMapping.Sparql.Parser

variable (env : Prologue)

/-- How many arguments a built-in function takes: the least number and, if there is one, the
greatest. -/
def builtIns : List (String × Nat × Option Nat) :=
  [("STR", 1, some 1), ("LANG", 1, some 1), ("LANGMATCHES", 2, some 2), ("DATATYPE", 1, some 1),
    ("IRI", 1, some 1), ("URI", 1, some 1), ("BNODE", 0, some 1), ("RAND", 0, some 0),
    ("ABS", 1, some 1), ("CEIL", 1, some 1), ("FLOOR", 1, some 1), ("ROUND", 1, some 1),
    ("CONCAT", 0, none), ("STRLEN", 1, some 1), ("UCASE", 1, some 1), ("LCASE", 1, some 1),
    ("ENCODE_FOR_URI", 1, some 1), ("CONTAINS", 2, some 2), ("STRSTARTS", 2, some 2),
    ("STRENDS", 2, some 2), ("STRBEFORE", 2, some 2), ("STRAFTER", 2, some 2),
    ("YEAR", 1, some 1), ("MONTH", 1, some 1), ("DAY", 1, some 1), ("HOURS", 1, some 1),
    ("MINUTES", 1, some 1), ("SECONDS", 1, some 1), ("TIMEZONE", 1, some 1), ("TZ", 1, some 1),
    ("NOW", 0, some 0), ("UUID", 0, some 0), ("STRUUID", 0, some 0), ("MD5", 1, some 1),
    ("SHA1", 1, some 1), ("SHA256", 1, some 1), ("SHA384", 1, some 1), ("SHA512", 1, some 1),
    ("COALESCE", 0, none), ("IF", 3, some 3), ("STRLANG", 2, some 2), ("STRDT", 2, some 2),
    ("SAMETERM", 2, some 2), ("ISIRI", 1, some 1), ("ISURI", 1, some 1), ("ISBLANK", 1, some 1),
    ("ISLITERAL", 1, some 1), ("ISNUMERIC", 1, some 1), ("REGEX", 2, some 3),
    ("SUBSTR", 2, some 3), ("REPLACE", 3, some 4)]

/-- Aggregates over one expression. -/
def aggregateNames : List String :=
  ["SUM", "MIN", "MAX", "AVG", "SAMPLE"]

/-- A word, in upper case. -/
def upperWord : Parser String :=
  satisfy fun
    | .word s => some s.toUpper
    | _ => none

/-- One of the given signs. -/
def oneOf (signs : List String) : Parser String :=
  satisfy fun
    | .sign s => if signs.contains s then some s else none
    | _ => none

/-- A number that carries its sign. -/
def signedNumber : Parser Literal :=
  satisfy fun
    | .number lexical datatype =>
      if lexical.startsWith "+" || lexical.startsWith "-" then
        some (Literal.typed lexical datatype)
      else none
    | _ => none

/-- An unsigned whole number. -/
def natural : Parser Nat :=
  satisfy fun
    | .number lexical datatype =>
      if datatype == Xsd.integer && lexical.toList.all Char.isDigit then
        (Number.readGrouped lexical.toList).map Number.ofDigits
      else none
    | _ => none

/-- Comparison operators. -/
def comparisons : List String := ["=", "!=", "<", ">", "<=", ">="]

/-- A comparison operator.  No reference can stand behind an operand, so angle brackets there are
operators around what they enclose, as in `?a<5&&?b>3`. -/
def comparisonSign : Parser String :=
  (do
    let reference ← satisfy fun
      | .iri reference => some reference
      | _ => none
    let last ← optionally (sign "=")
    let enclosed ← StateT.lift (Lexer.bracketsAsSigns reference last.isSome)
    modify (enclosed ++ ·)
    oneOf comparisons) <|> oneOf comparisons

/-- An operand with further operands behind operators, grouped from the left. -/
def chain (first : Expr) (others : List (String × Expr)) : Expr :=
  others.foldl (fun left (operator, right) => .call operator [left, right]) first

/-- Operands of one associative operator as one call. -/
def flat (operator : String) : List Expr → Expr
  | [e] => e
  | es => .call operator es

/-- A value of inline data; nothing stands for an undefined one. -/
def dataValue : Parser (Option Term) :=
  (do keyword "UNDEF"; return none) <|> (do return some (.iri (← iri env))) <|>
    (do return some (.literal (← literal env)))

/-- Inline data: one variable with values, or rows of values. -/
def dataBlock : Parser Algebra :=
  (do
    let name ← var
    let values ← between "\x7b" "\x7d" (many (dataValue env))
    return .values [name] (values.map ([·]))) <|>
  (do
    let names ← between "(" ")" (many var)
    let rows ← between "\x7b" "\x7d" (many (between "(" ")" (many (dataValue env))))
    return .values names rows)

/-- What a named aggregate runs over; a count may run over whole rows. -/
def aggregated (name : String) (expression : Parser Expr) : Parser (List Expr) :=
  let one : Parser (List Expr) := do return [← expression]
  if name = "COUNT" then (do sign "*"; return []) <|> one
  else if name = "GROUP_CONCAT" then do
    let arguments ← one
    let _ ← optionally do
      sign ";"
      keyword "SEPARATOR"
      sign "="
      text
    return arguments
  else if aggregateNames.contains name then one
  else failure

/-- A graph that a query is asked of. -/
def datasetClause : Parser Unit := do
  keyword "FROM"
  let _ ← optionally (keyword "NAMED")
  let _ ← iri env

/-- Whether repetitions are dropped. -/
def repetition : Parser (Option Repetition) :=
  optionally ((do keyword "DISTINCT"; return .distinct) <|> (do keyword "REDUCED"; return .reduced))

/-- A limit and an offset, in any order. -/
def limitOffset : Parser (Option Nat × Option Nat) := do
  let limit : Parser Nat := do keyword "LIMIT"; natural
  let offset : Parser Nat := do keyword "OFFSET"; natural
  (do let l ← limit; return (some l, ← optionally offset)) <|>
    (do let o ← offset; return (← optionally limit, some o)) <|> return (none, none)

mutual

/-- An expression. -/
def expressionWithin : (fuel : Nat) → Parser Expr
  | 0 => failure
  | fuel + 1 => do return flat "||" (← separated "||" (conjunctionWithin fuel))

/-- Comparisons that all have to hold. -/
def conjunctionWithin : (fuel : Nat) → Parser Expr
  | 0 => failure
  | fuel + 1 => do return flat "&&" (← separated "&&" (comparisonWithin fuel))

/-- A sum, perhaps compared with another one or with a list. -/
def comparisonWithin : (fuel : Nat) → Parser Expr
  | 0 => failure
  | fuel + 1 => do
    let left ← sumWithin fuel
    (do
      let operator ← comparisonSign
      return .call operator [left, ← sumWithin fuel]) <|>
    (do
      keyword "IN"
      return .call "IN" (left :: (← expressionListWithin fuel))) <|>
    (do
      keyword "NOT"
      keyword "IN"
      return .call "NOT IN" (left :: (← expressionListWithin fuel))) <|>
    return left

/-- Expressions in parentheses, perhaps none. -/
def expressionListWithin : (fuel : Nat) → Parser (List Expr)
  | 0 => failure
  | fuel + 1 =>
    (do sign "("; sign ")"; return []) <|>
      between "(" ")" (separated "," (expressionWithin fuel))

/-- Products added up; a signed number needs no operator in front. -/
def sumWithin : (fuel : Nat) → Parser Expr
  | 0 => failure
  | fuel + 1 => do
    let first ← productWithin fuel
    let others ← many (
      (do let operator ← oneOf ["+", "-"]; return (operator, ← productWithin fuel)) <|>
      (do
        let n ← signedNumber
        let factors ← many do
          let operator ← oneOf ["*", "/"]
          return (operator, ← unaryWithin fuel)
        return ("+", chain (.term (.literal n)) factors)))
    return chain first others

/-- Factors multiplied. -/
def productWithin : (fuel : Nat) → Parser Expr
  | 0 => failure
  | fuel + 1 => do
    let first ← unaryWithin fuel
    let others ← many do
      let operator ← oneOf ["*", "/"]
      return (operator, ← unaryWithin fuel)
    return chain first others

/-- A primary expression, perhaps negated. -/
def unaryWithin : (fuel : Nat) → Parser Expr
  | 0 => failure
  | fuel + 1 =>
    (do
      let operator ← oneOf ["!", "+", "-"]
      return .call operator [← primaryWithin fuel]) <|> primaryWithin fuel

/-- An expression that needs no operator. -/
def primaryWithin : (fuel : Nat) → Parser Expr
  | 0 => failure
  | fuel + 1 =>
    between "(" ")" (expressionWithin fuel) <|> builtInWithin fuel <|> functionWithin fuel <|>
      (do return .term (.iri (← iri env))) <|>
      (do return .term (.literal (← literal env))) <|> (do return .term (.var (← var)))

/-- A call of a function named by an IRI. -/
def functionWithin : (fuel : Nat) → Parser Expr
  | 0 => failure
  | fuel + 1 => do
    let name ← iri env
    (do sign "("; sign ")"; return .call name []) <|>
      (do
        let arguments ← between "(" ")" do
          let _ ← optionally (keyword "DISTINCT")
          separated "," (expressionWithin fuel)
        return .call name arguments)

/-- A call of a built-in function, an aggregate or a test for existence. -/
def builtInWithin : (fuel : Nat) → Parser Expr
  | 0 => failure
  | fuel + 1 =>
    (do
      let negated ← optionally (keyword "NOT")
      keyword "EXISTS"
      return .existence negated.isSome (← groupWithin fuel).algebra.mentioned) <|>
    (do
      keyword "BOUND"
      return .call "BOUND" [.term (.var (← between "(" ")" var))]) <|>
    aggregateWithin fuel <|>
    (do
      let name ← upperWord
      match builtIns.lookup name with
      | none => failure
      | some (least, greatest) =>
        let arguments ← expressionListWithin fuel
        if least ≤ arguments.length && greatest.all (arguments.length ≤ ·) then
          return .call name arguments
        else failure)

/-- A call of an aggregate. -/
def aggregateWithin : (fuel : Nat) → Parser Expr
  | 0 => failure
  | fuel + 1 => do
    let name ← upperWord
    sign "("
    let distinct ← optionally (keyword "DISTINCT")
    let arguments ← aggregated name (expressionWithin fuel)
    sign ")"
    return .aggregate name distinct.isSome arguments

/-- A condition: an expression in parentheses or a call. -/
def constraintWithin : (fuel : Nat) → Parser Expr
  | 0 => failure
  | fuel + 1 =>
    between "(" ")" (expressionWithin fuel) <|> builtInWithin fuel <|> functionWithin fuel

/-- A group in braces: a nested selection, or parts. -/
def groupWithin : (fuel : Nat) → Parser GroupPattern
  | 0 => failure
  | fuel + 1 => between "\x7b" "\x7d" (
    (do return .ofAlgebra (.subSelect (← selectionWithin fuel).1)) <|>
    (do
      let block : Parser (List GroupPart) := do
        return (← optionally (triplesBlock env (pathOrVar env))).toList.map .triples
      let first ← block
      let others ← many do
        let part ← partWithin fuel
        let _ ← optionally (sign ".")
        return part :: (← block)
      return .ofParts (first ++ others.flatten)))

/-- A part of a group that is no block of triples. -/
def partWithin : (fuel : Nat) → Parser GroupPart
  | 0 => failure
  | fuel + 1 =>
    (do
      let first ← groupWithin fuel
      let others ← many do
        keyword "UNION"
        groupWithin fuel
      return .joined (others.foldl (fun p g => .union p g.algebra) first.algebra)) <|>
    (do keyword "OPTIONAL"; return .optional (← groupWithin fuel)) <|>
    (do keyword "MINUS"; return .minus (← groupWithin fuel)) <|>
    (do
      keyword "GRAPH"
      let name ← varOrIri env
      return .joined (.graph name (← groupWithin fuel).algebra)) <|>
    (do
      keyword "SERVICE"
      let _ ← optionally (keyword "SILENT")
      let name ← varOrIri env
      return .joined (.service name (← groupWithin fuel).algebra)) <|>
    (do keyword "FILTER"; return .condition (← constraintWithin fuel)) <|>
    (do
      keyword "BIND"
      let (value, name) ← between "(" ")" (namedWithin fuel)
      return .bind value name) <|>
    (do keyword "VALUES"; return .joined (← dataBlock env))

/-- An expression with a name. -/
def namedWithin : (fuel : Nat) → Parser (Expr × String)
  | 0 => failure
  | fuel + 1 => do
    let value ← expressionWithin fuel
    keyword "AS"
    return (value, ← var)

/-- The columns of a selection; nothing stands for all variables. -/
def columnsWithin : (fuel : Nat) → Parser (Option (List Column))
  | 0 => failure
  | fuel + 1 =>
    (do
      let columns ← atLeastOne (
        (do return .var (← var)) <|>
        (do
          let (value, name) ← between "(" ")" (namedWithin fuel)
          return .expression value name))
      return some columns) <|> (do sign "*"; return none)

/-- What stands behind a pattern: grouping, conditions on groups, order and slice. -/
def modifiersWithin : (fuel : Nat) → Parser Modifiers
  | 0 => failure
  | fuel + 1 => do
    let groupKeys ← optionally do
      keyword "GROUP"
      keyword "BY"
      atLeastOne (
        (do return ⟨← builtInWithin fuel, none⟩) <|> (do return ⟨← functionWithin fuel, none⟩) <|>
        between "(" ")" (do
          let value ← expressionWithin fuel
          return ⟨value, ← optionally (do keyword "AS"; var)⟩) <|>
        (do return ⟨.term (.var (← var)), none⟩))
    let having ← optionally do
      keyword "HAVING"
      atLeastOne (constraintWithin fuel)
    let order ← optionally do
      keyword "ORDER"
      keyword "BY"
      atLeastOne (
        (do keyword "ASC"; return (← between "(" ")" (expressionWithin fuel), false)) <|>
        (do keyword "DESC"; return (← between "(" ")" (expressionWithin fuel), true)) <|>
        (do return (← constraintWithin fuel, false)) <|>
        (do return (.term (.var (← var)), false)))
    let (limit, offset) ← limitOffset
    return ⟨groupKeys.getD [], having.getD [], order.getD [], limit, offset, none⟩

/-- A selection nested in a group. -/
def selectionWithin : (fuel : Nat) → Parser (Algebra × List String)
  | 0 => failure
  | fuel + 1 => do
    keyword "SELECT"
    let repetition ← repetition
    let columns ← columnsWithin fuel
    let _ ← optionally (keyword "WHERE")
    let body ← groupWithin fuel
    let modifiers ← modifiersWithin fuel
    let values ← optionally (do keyword "VALUES"; dataBlock env)
    return Query.selection repetition columns body.algebra { modifiers with values := values }

end

/-- Enough fuel for every nesting that the tokens left can hold. -/
def nestingFuel : Parser Nat := do
  return 12 * (← supplied) + 24

/-- A group in braces. -/
def group : Parser GroupPattern := do
  groupWithin env (← nestingFuel)

end EntityMapping.Sparql.Grammar
