/-!
Resolving IRI references against a base.

A reference that names a scheme of its own stands for itself.  Any other replaces the part of the
base that it spells out: the last segment of the path, the whole path, the query or the fragment.
-/

namespace EntityMapping.Iri

/-- The text before the first separator, and the text behind it if there is one. -/
def cut (separator : Char) (s : List Char) : List Char × Option (List Char) :=
  match s.dropWhile (· != separator) with
  | [] => (s, none)
  | _ :: rest => (s.takeWhile (· != separator), some rest)

/-- The parts of a reference without scheme. -/
structure Parts where
  authority : Option (List Char)
  path : List Char
  query : Option (List Char)
  fragment : Option (List Char)
  deriving DecidableEq, Repr

/-- The parts of a text in which no scheme stands. -/
def Parts.ofText (s : List Char) : Parts :=
  let (s, fragment) := cut '#' s
  let (s, query) := cut '?' s
  match s with
  | '/' :: '/' :: rest =>
    let authority := rest.takeWhile (· != '/')
    ⟨some authority, rest.drop authority.length, query, fragment⟩
  | path => ⟨none, path, query, fragment⟩

/-- The text of the parts. -/
def Parts.text (p : Parts) : List Char :=
  (p.authority.elim [] fun a => '/' :: '/' :: a) ++ p.path ++
    (p.query.elim [] fun q => if q.isEmpty then [] else '?' :: q) ++
    (p.fragment.elim [] fun f => if f.isEmpty then [] else '#' :: f)

/-- A scheme: a letter, then letters, digits and some signs. -/
def isScheme (s : List Char) : Bool :=
  match s with
  | [] => false
  | c :: rest => c.isAlpha && rest.all fun d => d.isAlphanum || d == '+' || d == '-' || d == '.'

/-- A scheme and the rest of the text, if the text begins with one. -/
def splitScheme (s : List Char) : Option (List Char × List Char) :=
  match cut ':' s with
  | (scheme, some rest) => if isScheme scheme then some (scheme, rest) else none
  | _ => none

/-- One segment walked: `..` goes up, `.` stays. -/
def stepSegment (walked : List (List Char)) (segment : List Char) : List (List Char) :=
  if segment == ['.', '.'] then walked.dropLast
  else if segment == ['.'] then walked
  else walked ++ [segment]

/-- The empty segments between the first and the last dropped. -/
def dropEmptyInner (segments : List (List Char)) : List (List Char) :=
  match segments with
  | [] => []
  | [s] => [s]
  | first :: rest =>
    first :: (rest.dropLast.filter (!·.isEmpty) ++ rest.getLast?.toList)

/-- The path of a reference against the path of the base. -/
def resolvePath (base path : List Char) : List Char :=
  let segments := path.splitOn '/'
  let all :=
    if path.head? == some '/' then segments
    else
      let parts := base.splitOn '/'
      let parts := if parts.getLast? == some [] then parts else parts.dropLast
      dropEmptyInner (parts ++ segments)
  let walked := all.foldl stepSegment []
  let last := all.getLast?
  let walked := if last == some ['.'] || last == some ['.', '.'] then walked ++ [[]] else walked
  match ['/'].intercalate walked with
  | [] => ['/']
  | joined => joined

/-- Schemes whose references may be relative. -/
def relativeSchemes : List String :=
  ["", "ftp", "http", "gopher", "nntp", "imap", "wais", "file", "https", "shttp", "mms",
    "prospero", "rtsp", "rtsps", "rtspu", "sftp", "svn", "svn+ssh", "ws", "wss"]

/-- A reference without scheme against the parts of the base. -/
def resolveParts (base reference : Parts) : Parts :=
  if reference.authority.any (!·.isEmpty) then reference
  else if reference.path.isEmpty then
    let query := if reference.query.any (!·.isEmpty) then reference.query else base.query
    ⟨base.authority, base.path, query, reference.fragment⟩
  else ⟨base.authority, resolvePath base.path reference.path, reference.query, reference.fragment⟩

/-- A path stands behind an authority with a slash between. -/
def Parts.rooted (p : Parts) : Parts :=
  if p.authority.isSome && !p.path.isEmpty && p.path.head? != some '/' then
    { p with path := '/' :: p.path }
  else p

/-- Resolves a reference that holds no colon against a base. -/
def resolveAgainst (base reference : String) : String :=
  let r := reference.toList
  if base.isEmpty then reference
  else if r.isEmpty then base
  else
    let (scheme, rest) := (splitScheme base.toList).getD ([], base.toList)
    if !relativeSchemes.contains (String.ofList (scheme.map Char.toLower)) then reference
    else
      let parts := (resolveParts (Parts.ofText rest) (Parts.ofText r)).rooted
      let front := if scheme.isEmpty then [] else scheme.map Char.toLower ++ [':']
      let resolved := front ++ parts.text
      if r.getLast? == some '#' && resolved.getLast? != some '#' then
        String.ofList (resolved ++ ['#'])
      else String.ofList resolved

/-- The IRI that a reference stands for.  A reference with a colon stands for itself, and so does
every reference where there is no base. -/
def resolve (base : Option String) (reference : String) : String :=
  if reference.toList.contains ':' then reference
  else
    match base with
    | some b => resolveAgainst b reference
    | none => reference

@[simp] theorem resolve_none (reference : String) : resolve none reference = reference := by
  simp [resolve]

end EntityMapping.Iri
