import EntityMapping.Proofs.Analysis.Links

/-!
What it means that a predicate owns a variable.

The predicate that owns a variable is that of the links from the anchor to it.  If one of these links
lies outside all optional parts, every solution states it.  The analysis asks that of no link: where
they all lie in optional parts, a solution may have the value from elsewhere.
-/

namespace EntityMapping

open Sparql (Algebra Meaning Prologue Query Solution TriplePattern)

/-- The graph holds what a solution has for two names, linked by a predicate. -/
def Sparql.Solution.Links (s : Solution) (g : Graph) (subject predicate object : String) : Prop :=
  ∃ x y, s.term? subject = some x ∧ s.term? object = some y ∧
    g.holds ⟨x, .iri predicate, y⟩ = true

/-- The solutions of a selection; other queries have none. -/
def Sparql.Query.solutions (g : Graph) : Query → List Solution
  | .select pattern _ => pattern.solutions g
  | _ => []

namespace Sparql.Solution

variable {g : Graph} {s u : Solution}

instance {subject predicate object : String} : Decidable (s.Links g subject predicate object) :=
  decidable_of_iff ((s.term? subject).any fun x => (s.term? object).any fun y =>
    g.holds ⟨x, .iri predicate, y⟩) (by simp [Links, Option.any_eq_true])

end Sparql.Solution

namespace Analysis

theorem mem_directPredicates {ds : List Dependency} {anchor name p : String} :
    p ∈ directPredicates ds anchor name ↔ ∃ optional, ⟨anchor, p, name, optional⟩ ∈ ds := by
  simp only [directPredicates, List.mem_eraseDups, List.mem_map, List.mem_filter,
    Bool.and_eq_true, beq_iff_eq]
  constructor
  · rintro ⟨d, ⟨hd, rfl, rfl⟩, rfl⟩
    exact ⟨d.isOptional, hd⟩
  · rintro ⟨optional, hd⟩
    exact ⟨_, ⟨hd, rfl, rfl⟩, rfl⟩

end Analysis

end EntityMapping
