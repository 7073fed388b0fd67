import EntityMapping.Proofs.Analysis.Nullable

/-!
What the links between variables say about the pattern.

The walk meets every triple of the pattern, in order.  A link is what it makes of a triple between
two variables, so a link leads back to a triple, and one that is not optional leads back to a triple
outside all optional parts.
-/

namespace EntityMapping

open Sparql (TriplePattern)

namespace Visit

theorem map_pattern_of_mapM {context : List Nat} {triples : List TriplePattern}
    {visits : List Visit} (h : triples.mapM (ofTriple context) = .ok visits) :
    visits.map pattern = triples := by
  replace h := forall₂_of_mapM h
  induction h with
  | nil => rfl
  | cons hv _ ih => rw [List.map_cons, (ofTriple_ok hv).2, ih]

mutual

/-- The walk visits every triple of the tree, in order. -/
theorem map_pattern_ofPattern {context : List Nat} {next after : Nat} {p : Pattern}
    {visits : List Visit} (h : ofPattern context next p = .ok (visits, after)) :
    visits.map pattern = p.triples := by
  match p, h with
  | .basic ts, h =>
      obtain ⟨found, hfound, h⟩ := bind_eq_ok.mp h
      cases pure_eq_ok.mp h
      exact map_pattern_of_mapM hfound
  | .group children, h => exact map_pattern_ofPatterns h
  | .optional child, h =>
      have hchild : ofPattern (context ++ [next]) (next + 1) child = .ok (visits, after) := h
      exact map_pattern_ofPattern (p := child) hchild

/-- The same for several trees in order. -/
theorem map_pattern_ofPatterns {context : List Nat} {next after : Nat} {ps : List Pattern}
    {visits : List Visit} (h : ofPatterns context next ps = .ok (visits, after)) :
    visits.map pattern = Pattern.triplesOfAll ps := by
  match ps, h with
  | [], h =>
      cases Except.ok.inj h
      rfl
  | p :: rest, h =>
      obtain ⟨⟨found, _⟩, hfound, h⟩ := bind_eq_ok.mp h
      obtain ⟨⟨others, _⟩, hothers, h⟩ := bind_eq_ok.mp h
      cases pure_eq_ok.mp h
      rw [List.map_append, map_pattern_ofPattern hfound, map_pattern_ofPatterns hothers]
      rfl

end

end Visit

namespace Dependency

/-- The triple that makes a link. -/
def pattern (d : Dependency) : TriplePattern :=
  .plain (.var d.subject) (.iri d.predicate) (.var d.object)

theorem of_dependency? {v : Visit} {d : Dependency} (h : v.dependency? = some d) :
    v.pattern = d.pattern ∧ d.isOptional = !v.context.isEmpty := by
  unfold Visit.dependency? at h
  split at h
  · next hsubject hobject =>
      obtain rfl := Option.some.inj h
      exact ⟨by rw [Visit.pattern, pattern, hsubject, hobject], rfl⟩
  · contradiction

/-- A link is made by a triple of the pattern, by one outside all optional parts if it is not
optional. -/
theorem pattern_mem {p : Pattern} {visits : List Visit} (hvisits : Visit.all p = .ok visits)
    {d : Dependency} (hd : d ∈ Visit.dependencies visits) :
    d.pattern ∈ p.triples ∧ (d.isOptional = false → d.pattern ∈ p.outsideOptional) := by
  obtain ⟨next, hwalk⟩ := Visit.all_ok hvisits
  obtain ⟨v, hv, hlink⟩ := List.mem_filterMap.mp (List.mem_eraseDups.mp hd)
  obtain ⟨hpattern, hoptional⟩ := of_dependency? hlink
  rw [← hpattern]
  constructor
  · exact Visit.map_pattern_ofPattern hwalk ▸ List.mem_map_of_mem hv
  · intro houtside
    have hcontext : v.context = [] := by simpa [hoptional] using houtside
    rw [← (Visit.walks_ofPattern hwalk).here]
    exact List.mem_map_of_mem (List.mem_filter.mpr ⟨hv, beq_iff_eq.mpr hcontext⟩)

end Dependency

end EntityMapping
