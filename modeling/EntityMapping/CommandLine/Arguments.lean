/-!
Arguments of a command: options with values, and what is left.

A long option may be cut short as long as it stays clear which one is meant, and its value may stand
behind an equals sign.  What begins with a hyphen is an option, unless it is a negative number or
holds a blank.
-/

namespace EntityMapping.Arguments

/-- The option that asks for help. -/
def help : String := "--help"

/-- The short form of the option that asks for help. -/
def shortHelp : String := "-h"

/-- What an argument is taken for. -/
inductive Word where
  | positional (s : String)
  | option (name : String) (value : Option String)
  /-- From here on nothing is an option. -/
  | terminator
  | unknown
  deriving DecidableEq, Repr

/-- Whether a text is a negative number. -/
def isNegativeNumber (cs : List Char) : Bool :=
  match cs with
  | '-' :: rest =>
    let whole := rest.takeWhile Char.isDigit
    match rest.drop whole.length with
    | [] => !whole.isEmpty
    | '.' :: places => !places.isEmpty && places.all Char.isDigit
    | _ => false
  | _ => false

/-- A text up to its first equals sign, and what stands behind it if there is one. -/
def cutValue (s : String) : String × Option String :=
  let cs := s.toList
  match cs.dropWhile (· != '=') with
  | [] => (s, none)
  | _ :: value => (String.ofList (cs.takeWhile (· != '=')), some (String.ofList value))

/-- The options that a text may stand for: the one of that name, or all that begin with it. -/
def candidates (options : List String) (s : String) : List String :=
  if options.contains s then [s] else options.filter fun o => s.toList.isPrefixOf o.toList

/-- What an argument of several hyphens is taken for. -/
def longWord (options : List String) (s : String) : Option Word :=
  let (name, value) := cutValue s
  match candidates options name with
  | [o] => some (.option o value)
  | [] => if s.toList.contains ' ' then some (.positional s) else some .unknown
  | _ => none

/-- What an argument is taken for; nothing where that is not clear. -/
def classify (options : List String) (s : String) : Option Word :=
  match s.toList with
  | [] | ['-'] => some (.positional s)
  | ['-', '-'] => some .terminator
  | '-' :: '-' :: _ => longWord options s
  | '-' :: rest =>
    if s == shortHelp then some (.option help none)
    else if isNegativeNumber ('-' :: rest) || rest.contains ' ' then some (.positional s)
    else some .unknown
  | _ => some (.positional s)

/-- Arguments as they were understood. -/
structure Parsed where
  positionals : List String
  /-- Options with their values, in order. -/
  options : List (String × String)
  wantsHelp : Bool
  deriving DecidableEq, Repr

namespace Parsed

/-- The values of an option, in order. -/
def values (p : Parsed) (name : String) : List String :=
  (p.options.filter (·.1 == name)).map Prod.snd

end Parsed

/-- Adds a positional argument at the front. -/
def withPositional (s : String) (p : Parsed) : Parsed :=
  { p with positionals := s :: p.positionals }

/-- Adds an option at the front. -/
def withOption (name value : String) (p : Parsed) : Parsed :=
  { p with options := (name, value) :: p.options }

/-- Understands arguments from the front; every option but the one for help takes a value. -/
def understand (options : List String) : List String → Option Parsed
  | [] => some ⟨[], [], false⟩
  | s :: rest =>
    match classify options s with
    | some (.positional p) => (understand options rest).map (withPositional p)
    | some .terminator => some ⟨rest, [], false⟩
    | some (.option name (some value)) =>
      if name == help then none else (understand options rest).map (withOption name value)
    | some (.option name none) =>
      if name == help then some ⟨[], [], true⟩
      else
        match rest with
        | value :: behind =>
          match classify options value with
          | some (.positional v) => (understand options behind).map (withOption name v)
          | _ => none
        | [] => none
    | _ => none

end EntityMapping.Arguments
