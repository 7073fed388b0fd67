import EntityMapping.Proofs.Sparql.Star

/-!
What the answers of a star say about the graph.

A triple outside the optional parts is a triple of the graph in every answer, whatever was given.
So an IRI that some answer has for the anchor has an object for each of these triples.
-/

namespace EntityMapping.Sparql

/-- What one solution says beside another that it agrees with is kept by their merge. -/
theorem Solution.Within.merge {s u : Solution} (h : s.Within u) : u.Within (s.merge u) := by
  intro name known hknown
  rw [Solution.term?_merge]
  cases hs : s.term? name with
  | none => exact hknown
  | some found => exact (h name found hs).symm.trans hknown

namespace Algebra

variable {g : Graph} {p : Algebra} {qs ts : List TriplePattern} {given u : Solution}

/-- A pattern whose answers say what was given, and make triples of the graph of some patterns. -/
structure States (g : Graph) (p : Algebra) (qs : List TriplePattern) : Prop where
  handed : p.takesBindings = true
  within : ∀ {given u}, u ∈ p.answers g given → given.Within u
  matched : ∀ {given u}, u ∈ p.answers g given → ∀ q ∈ qs, q.Matches g u

theorem states_bgp (g : Graph) (ts : List TriplePattern) : (bgp ts).States g ts where
  handed := rfl
  within hu := (mem_solveBlock hu).1
  matched hu := (mem_solveBlock hu).2

/-- Answers of the right side from those of the left side say what either side says. -/
theorem States.joined (h : p.States g qs) (ts : List TriplePattern) :
    (Algebra.joined p (.bgp ts)).States g (qs ++ ts) := by
  have hright := states_bgp g ts
  unfold Algebra.joined
  split
  · next hempty =>
      obtain rfl := eq_empty_of_isEmpty hempty
      refine ⟨rfl, hright.within, fun {given u} hu q hq => ?_⟩
      rcases List.mem_append.mp hq with hq | hq
      · exact h.matched (List.mem_singleton_self u) q hq
      · exact hright.matched hu q hq
  · split
    · next hempty =>
        obtain rfl := bgp.inj (eq_empty_of_isEmpty hempty)
        exact (List.append_nil qs).symm ▸ h
    · have hmem : ∀ {given u}, u ∈ (Algebra.join p (.bgp ts)).answers g given →
          ∃ s ∈ p.answers g given, ∃ v ∈ (bgp ts).answers g s, u = s.merge v := by
        intro given u hu
        rw [answers, h.handed, hright.handed, Bool.and_self, if_pos rfl] at hu
        obtain ⟨s, hs, hu⟩ := List.mem_flatMap.mp hu
        obtain ⟨v, hv, rfl⟩ := List.mem_map.mp hu
        exact ⟨s, hs, v, hv, rfl⟩
      refine ⟨rfl, fun {given u} hu => ?_, fun {given u} hu q hq => ?_⟩
      · obtain ⟨s, hs, v, -, rfl⟩ := hmem hu
        exact (h.within hs).trans (s.within_merge v)
      · obtain ⟨s, hs, v, hv, rfl⟩ := hmem hu
        rcases List.mem_append.mp hq with hq | hq
        · exact (h.matched hs q hq).mono (s.within_merge v)
        · exact (hright.matched hv q hq).mono (hright.within hv).merge

/-- What is optional takes nothing from the answers of the left side. -/
theorem States.leftJoin (h : p.States g qs) (q : TriplePattern) :
    (Algebra.leftJoin p (.bgp [q]) none).States g qs := by
  have hmem : ∀ {given u}, u ∈ (Algebra.leftJoin p (.bgp [q]) none).answers g given →
      ∃ s ∈ p.answers g given, s.Within u := by
    intro given u hu
    rw [answers_leftJoin] at hu
    obtain ⟨s, hs, hu⟩ := List.mem_flatMap.mp hu
    refine ⟨s, hs, ?_⟩
    generalize hfound : ((bgp [q]).answers g s).map s.merge = found at hu
    cases found with
    | nil =>
        simp only [List.mem_ite_nil_right, List.mem_singleton] at hu
        exact hu.2 ▸ .refl s
    | cons first rest =>
        have hmem : u ∈ ((bgp [q]).answers g s).map s.merge := by rw [hfound]; exact hu
        obtain ⟨v, -, rfl⟩ := List.mem_map.mp hmem
        exact s.within_merge v
  refine ⟨Bool.and_eq_true_iff.mpr ⟨h.handed, rfl⟩, fun {given u} hu => ?_,
    fun {given u} hu q hq => ?_⟩
  · obtain ⟨s, hs, hsu⟩ := hmem hu
    exact (h.within hs).trans hsu
  · obtain ⟨s, hs, hsu⟩ := hmem hu
    exact (h.matched hs q hq).mono hsu

end Algebra

namespace Clause

variable {g : Graph} {anchor : String} {cs : List Clause} {c : Clause}

/-- The triples of the clauses that are not optional. -/
def requiredTriples (anchor : String) (cs : List Clause) : List TriplePattern :=
  (cs.filter fun c => !c.isOptional).map (triple anchor)

theorem mem_requiredTriples (hc : c ∈ cs) (hrequired : c.isOptional = false) :
    c.triple anchor ∈ requiredTriples anchor cs :=
  List.mem_map_of_mem (List.mem_filter.mpr ⟨hc, by rw [hrequired]; rfl⟩)

theorem states_parts {parts : List GroupPart} (hparts : Grouped anchor cs parts) {p : Algebra}
    {qs : List TriplePattern} (h : p.States g qs) :
    (parts.foldl GroupPart.extend p).States g (qs ++ requiredTriples anchor cs) := by
  induction hparts generalizing p qs with
  | nil => exact (List.append_nil qs).symm ▸ h
  | @block block rest parts hne hrequired hrest ih =>
      have hall : block.filter (fun c => !c.isOptional) = block :=
        List.filter_eq_self.mpr fun c hc => by rw [hrequired c hc]; rfl
      have hown : requiredTriples anchor (block ++ rest) =
          block.map (triple anchor) ++ requiredTriples anchor rest := by
        rw [requiredTriples, List.filter_append, List.map_append, hall]
        rfl
      rw [hown, ← List.append_assoc]
      exact ih (h.joined (block.map (triple anchor)))
  | @optional c rest parts hoptional hrest ih =>
      have hown : requiredTriples anchor (c :: rest) = requiredTriples anchor rest := by
        rw [requiredTriples, List.filter_cons_of_neg (by simp [hoptional])]
        rfl
      rw [hown]
      exact ih (h.leftJoin (c.triple anchor))

/-- The subject of a clause's triple has an object for the clause. -/
theorem objects_ne_nil_of_matches {u : Solution} {uri : String}
    (h : (c.triple anchor).Matches g u) (hanchor : u.term? anchor = some (.iri uri)) :
    c.objects g uri ≠ [] := by
  obtain ⟨a, o, ⟨found, hfound, hsubject⟩, -, hpredicate⟩ := h
  obtain rfl := Option.some.inj (hanchor.symm.trans hfound)
  obtain ⟨known, hknown, hmem⟩ := hpredicate (.iri c.predicate) rfl
  obtain rfl := Term.iri_same_iff.mp hsubject
  obtain rfl := Term.iri_same_iff.mp hknown
  have hobject : o ∈ g.objects (.iri uri) (.iri c.predicate) :=
    List.mem_map.mpr ⟨_, List.mem_filter.mpr ⟨hmem, by simp⟩, rfl⟩
  exact List.ne_nil_of_mem hobject

end Clause

namespace Star

variable {b : Star} {g : Graph} {given u : Solution} {uri : String}

/-- An IRI has an object for each clause of a star that is not optional. -/
def HoldsAt (b : Star) (g : Graph) (uri : String) : Prop :=
  ∀ c ∈ b.clauses, c.isOptional = false → c.objects g uri ≠ []

/-- Whatever was given, an answer of a star keeps it, and the star holds at the IRI that it has for
the anchor. -/
theorem of_mem_answers (h : u ∈ b.body.answers g given) :
    given.Within u ∧ ∀ uri, u.term? b.anchor = some (.iri uri) → b.HoldsAt g uri := by
  have hstates := Clause.states_parts (Clause.grouped_mergeBlocks b.anchor b.clauses)
    (Algebra.states_bgp g [])
  rw [b.body_eq] at h
  refine ⟨hstates.within h, fun uri hanchor c hc hrequired => ?_⟩
  exact Clause.objects_ne_nil_of_matches
    (hstates.matched h _ (Clause.mem_requiredTriples hc hrequired)) hanchor

/-- A star has solutions about the IRIs at which it holds. -/
theorem solve_ne_nil_iff :
    Clause.solve g uri b.clauses (Algebra.point b.anchor uri) ≠ [] ↔ b.HoldsAt g uri := by
  constructor
  · intro hsome
    obtain ⟨u, hu⟩ := List.exists_mem_of_ne_nil _ hsome
    rw [← (b.answers_body g uri).1] at hu
    exact (of_mem_answers hu).2 uri (anchored_of_mem_answers hu)
  · intro hobjects
    exact Clause.solve_ne_nil hobjects _

end Star

end EntityMapping.Sparql
