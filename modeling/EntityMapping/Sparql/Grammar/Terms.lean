import EntityMapping.Sparql.Parser
import EntityMapping.Sparql.Prologue
import EntityMapping.Sparql.TriplePattern

/-!
Terms and property paths in requests.
-/

namespace EntityMapping.Sparql.Grammar

open EntityMapping.Sparql.Parser

variable (env : Prologue)

/-- An IRI, in brackets or by its prefix. -/
def iri : Parser String :=
  satisfy fun
    | .iri reference => some (env.resolve reference)
    | .name label localName => env.expand label localName
    | _ => none

/-- A variable's name. -/
def var : Parser String :=
  satisfy fun
    | .var name => some name
    | _ => none

/-- A number with the datatype of its form. -/
def number : Parser Literal :=
  satisfy fun
    | .number lexical datatype => some (Literal.typed lexical datatype)
    | _ => none

/-- A quoted text. -/
def text : Parser String :=
  satisfy fun
    | .text s => some s
    | _ => none

/-- A language tag. -/
def tag : Parser String :=
  satisfy fun
    | .tag s => some s
    | _ => none

/-- A text with its language or datatype. -/
def textLiteral : Parser Literal := do
  let s ← text
  (do return Literal.tagged s (← tag)) <|>
    (do sign "^^"; return Literal.typed s (← iri env)) <|>
    return Literal.plain s

/-- One of the two truth values. -/
def truthValue : Parser Literal :=
  (do keyword "TRUE"; return Literal.ofDatum (.boolean true) none) <|>
    (do keyword "FALSE"; return Literal.ofDatum (.boolean false) none)

/-- A literal of any form. -/
def literal : Parser Literal :=
  textLiteral env <|> number <|> truthValue

/-- A blank node without a label gets one from its place; no written label has brackets. -/
def freshBlank : Parser Term := do
  return .blank ("[" ++ toString (← remaining) ++ "]")

/-- A blank node, by its label or anonymous. -/
def blank : Parser Term :=
  satisfy (fun
    | .blank label => some (.blank label)
    | _ => none) <|>
    (do sign "["; sign "]"; freshBlank)

/-- The empty list. -/
def emptyList : Parser Term := do
  sign "("
  sign ")"
  return .iri Rdf.nil

/-- A term that is not a variable. -/
def graphTerm : Parser Term :=
  (do return .iri (← iri env)) <|> (do return .literal (← literal env)) <|> blank <|> emptyList

/-- A variable or another term. -/
def varOrTerm : Parser Term :=
  (do return .var (← var)) <|> graphTerm env

/-- A variable or an IRI. -/
def varOrIri : Parser Term :=
  (do return .var (← var)) <|> (do return .iri (← iri env))

/-- The short word for the type predicate. -/
def typeWord : Parser String :=
  satisfy fun t => if t = .word "a" then some Rdf.type else none

/-- A predicate that is no path. -/
def predicate : Parser Path :=
  (do return .step (← varOrIri env)) <|> (do return .step (.iri (← typeWord)))

/-- One step of a path. -/
def pathIri : Parser Path :=
  do return .step (.iri (← iri env <|> typeWord))

/-- A step of a negated set, forward or backward. -/
def pathInSet : Parser Path :=
  (do sign "^"; return .inverse (← pathIri env)) <|> pathIri env

/-- The steps of a negated set. -/
def pathSet : Parser (List Path) :=
  (do return [← pathInSet env]) <|> between "(" ")" (separated "|" (pathInSet env))

/-- The mark of a repeated path. -/
def pathMark : Parser Char :=
  (do sign "?"; return '?') <|> (do sign "*"; return '*') <|> (do sign "+"; return '+')

mutual

/-- A path as a choice of sequences. -/
def pathWithin : (fuel : Nat) → Parser Path
  | 0 => failure
  | fuel + 1 => do return Path.inAlternative (← separated "|" (pathSequenceWithin fuel))

/-- A path as a sequence of elements. -/
def pathSequenceWithin : (fuel : Nat) → Parser Path
  | 0 => failure
  | fuel + 1 => do return Path.inSequence (← separated "/" (pathElementWithin fuel))

/-- An element of a path, forward or backward, perhaps repeated. -/
def pathElementWithin : (fuel : Nat) → Parser Path
  | 0 => failure
  | fuel + 1 =>
    (do sign "^"; return .inverse (← pathRepeatedWithin fuel)) <|> pathRepeatedWithin fuel

/-- A primary path with its mark. -/
def pathRepeatedWithin : (fuel : Nat) → Parser Path
  | 0 => failure
  | fuel + 1 => do
    let p ← pathPrimaryWithin fuel
    match ← optionally pathMark with
    | some mark => return .repeated p mark
    | none => return p

/-- A step, a negated set or a path in parentheses. -/
def pathPrimaryWithin : (fuel : Nat) → Parser Path
  | 0 => failure
  | fuel + 1 =>
    pathIri env <|> (do sign "!"; return .negated (← pathSet env)) <|>
      between "(" ")" (pathWithin fuel)

end

/-- A property path. -/
def path : Parser Path := do
  pathWithin env (5 * (← supplied) + 5)

/-- A predicate in a pattern: a path or a variable. -/
def pathOrVar : Parser Path :=
  path env <|> (do return .step (.var (← var)))

end EntityMapping.Sparql.Grammar
