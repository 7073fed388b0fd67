import EntityMapping.Term.Basic

/-!
Solutions: finite assignments of terms to names.

A name that a solution does not mention is unbound in it.  Two solutions are compatible when they
agree on every name that both bind; they can then be merged.
-/

namespace EntityMapping.Sparql

/-- The names that are bound, with their terms.  The first entry of a name counts. -/
abbrev Solution := List (String × Term)

namespace Solution

/-- The solution that binds nothing. -/
def empty : Solution := []

/-- The term of a name, if it is bound. -/
def term? (s : Solution) (name : String) : Option Term :=
  s.lookup name

/-- Whether a name is bound. -/
def binds (s : Solution) (name : String) : Bool :=
  (s.term? name).isSome

/-- Whether two solutions agree on every name that both bind. -/
def compatible (s t : Solution) : Bool :=
  s.all fun (name, _) =>
    match s.term? name, t.term? name with
    | some a, some b => a.same b
    | _, _ => true

/-- Everything that one of two solutions binds. -/
def merge (s t : Solution) : Solution :=
  s ++ t.filter fun (name, _) => !s.binds name

/-- The solution with one more name bound, unless it is bound already. -/
def assign (s : Solution) (name : String) (t : Term) : Solution :=
  s.merge [(name, t)]

/-- What a solution says about some names only. -/
def restrict (s : Solution) (names : List String) : Solution :=
  names.filterMap fun name => (s.term? name).map (name, ·)

/-- What a solution says beyond what was given to it; of the given names only some are kept. -/
def beyond (s given : Solution) (kept : List String) : Solution :=
  s.filter fun (name, _) => !given.binds name || kept.contains name

/-- Whether two solutions bind the same names to the same terms. -/
def agrees (s t : Solution) (names : List String) : Bool :=
  names.all fun name =>
    match s.term? name, t.term? name with
    | some a, some b => a.same b
    | none, none => true
    | _, _ => false

/-- The solutions with repetitions dropped: the first of several that agree is kept. -/
def distinct (solutions : List Solution) : List Solution :=
  solutions.foldl (fun seen s =>
    if seen.any fun t => s.agrees t (s.map Prod.fst ++ t.map Prod.fst) then seen
    else seen ++ [s]) []

@[simp] theorem term?_empty (name : String) : empty.term? name = none := rfl

theorem term?_merge (s t : Solution) (name : String) :
    (s.merge t).term? name = (s.term? name).or (t.term? name) := by
  unfold merge term?
  rw [List.lookup_append]
  cases h : s.lookup name with
  | some a => rfl
  | none =>
    simp only [Option.none_or]
    induction t with
    | nil => rfl
    | cons entry rest ih =>
      obtain ⟨n, a⟩ := entry
      by_cases hn : name = n
      · subst hn
        simp [binds, term?, h]
      · have hne : (name == n) = false := beq_eq_false_iff_ne.2 hn
        by_cases hb : s.binds n <;> simp [hb, ih, List.lookup_cons, hne]

end Solution

end EntityMapping.Sparql
