import EntityMapping.Sparql.Evaluation

/-!
What an evaluation of a pattern can give.

The evaluation of patterns knows few functions, and its order of rows is one of many.  What is
admitted here leaves the meaning of expressions open and keeps every row that some order, some
graph or some other row could take away: an upper bound of the solutions in any evaluation.
-/

namespace EntityMapping.Sparql

namespace Solution

/-- Whatever one solution binds, the other binds to the same term. -/
def Within (s t : Solution) : Prop :=
  ∀ name known, s.term? name = some known → t.term? name = some known

theorem Within.refl (s : Solution) : s.Within s := fun _ _ h => h

theorem Within.trans {s t u : Solution} (hst : s.Within t) (htu : t.Within u) : s.Within u :=
  fun name known h => htu name known (hst name known h)

theorem within_merge (s t : Solution) : s.Within (s.merge t) := by
  intro name known h
  rw [term?_merge, h]
  rfl

theorem within_assign (s : Solution) (name : String) (t : Term) : s.Within (s.assign name t) :=
  s.within_merge _

theorem term?_restrict (s : Solution) (names : List String) (name : String) :
    (s.restrict names).term? name = if name ∈ names then s.term? name else none := by
  unfold restrict
  induction names with
  | nil => rfl
  | cons first names ih =>
      rw [List.filterMap_cons]
      by_cases hname : name = first
      · subst hname
        cases h : s.term? name with
        | some known => simp [term?]
        | none => simp [ih, h]
      · cases h : s.term? first with
        | some known => simpa [term?, List.lookup_cons, beq_false_of_ne hname, hname] using ih
        | none => simpa [hname] using ih

theorem mem_distinct {solutions : List Solution} {s : Solution} (h : s ∈ distinct solutions) :
    s ∈ solutions := by
  suffices hfold : ∀ seen, s ∈ solutions.foldl (fun seen s =>
      if seen.any fun t => s.agrees t (s.map Prod.fst ++ t.map Prod.fst) then seen
      else seen ++ [s]) seen → s ∈ seen ∨ s ∈ solutions from
    (hfold [] h).resolve_left List.not_mem_nil
  clear h
  intro seen h
  induction solutions generalizing seen with
  | nil => exact Or.inl h
  | cons first solutions ih =>
      rw [List.foldl_cons] at h
      rcases ih _ h with hseen | hmore
      · split at hseen
        · exact Or.inl hseen
        · rcases List.mem_append.mp hseen with hseen | hfirst
          · exact Or.inl hseen
          · exact Or.inr (List.mem_singleton.mp hfirst ▸ List.mem_cons_self)
      · exact Or.inr (List.mem_cons_of_mem _ hmore)

end Solution

/-! ### Blocks of triples -/

/-- Whether a term of a pattern can stand for a term of the graph in a solution.  A blank node in a
pattern stands for anything. -/
def Stands (s : Solution) (pattern t : Term) : Prop :=
  match pattern with
  | .var name => ∃ known, s.term? name = some known ∧ known.same t = true
  | .blank _ => True
  | fixed => fixed.same t = true

theorem Stands.mono {s u : Solution} (h : s.Within u) {pattern t : Term}
    (hs : Stands s pattern t) : Stands u pattern t := by
  cases pattern with
  | var name =>
      obtain ⟨known, hknown, hsame⟩ := hs
      exact ⟨known, h name known hknown, hsame⟩
  | _ => exact hs

theorem Stands.binds {s : Solution} {name : String} {t : Term} (h : Stands s (.var name) t) :
    s.binds name = true := by
  obtain ⟨known, hknown, -⟩ := h
  exact Option.isSome_iff_exists.mpr ⟨known, hknown⟩

/-- Whether a solution makes a pattern a triple of the graph.  Where the predicate is a path, its
ends stand for something; what the path asks of them is left open. -/
def TriplePattern.Matches (q : TriplePattern) (g : Graph) (s : Solution) : Prop :=
  ∃ a b, Stands s q.subject a ∧ Stands s q.object b ∧
    ∀ p, q.predicate = .step p → ∃ known, Stands s p known ∧ ⟨a, known, b⟩ ∈ g

theorem TriplePattern.Matches.mono {q : TriplePattern} {g : Graph} {s u : Solution}
    (h : s.Within u) (hs : q.Matches g s) : q.Matches g u := by
  obtain ⟨a, b, ha, hb, hpredicate⟩ := hs
  refine ⟨a, b, ha.mono h, hb.mono h, ?_⟩
  intro p hp
  obtain ⟨known, hknown, hmem⟩ := hpredicate p hp
  exact ⟨known, hknown.mono h, hmem⟩

theorem matchTerm_some {pattern t : Term} {s u : Solution} (h : matchTerm pattern t s = some u) :
    s.Within u ∧ Stands u pattern t := by
  unfold matchTerm at h
  split at h
  · next name hname =>
      split at h
      · next known hknown =>
          split at h
          · next hsame =>
              obtain rfl := Option.some.inj h
              refine ⟨.refl s, ?_⟩
              cases pattern with
              | var n => exact ⟨known, Option.some.inj hname ▸ hknown, hsame⟩
              | blank label => trivial
              | _ => contradiction
          · contradiction
      · next hunknown =>
          obtain rfl := Option.some.inj h
          refine ⟨s.within_assign name t, ?_⟩
          cases pattern with
          | var n =>
              obtain rfl := Option.some.inj hname
              refine ⟨t, ?_, Term.same_refl t⟩
              rw [Solution.assign, Solution.term?_merge, hunknown]
              simp [Solution.term?]
          | blank label => trivial
          | _ => contradiction
  · next hname =>
      split at h
      · next hsame =>
          obtain rfl := Option.some.inj h
          refine ⟨.refl s, ?_⟩
          cases pattern with
          | var n => contradiction
          | blank label => contradiction
          | _ => exact hsame
      · contradiction

theorem matchTriple_some {q : TriplePattern} {g : Graph} {t : Triple} (ht : t ∈ g)
    {s u : Solution} (h : q.matchTriple t s = some u) : s.Within u ∧ q.Matches g u := by
  unfold TriplePattern.matchTriple at h
  split at h
  · next p hp =>
      obtain ⟨v, hsubject, h⟩ := Option.bind_eq_some_iff.mp h
      obtain ⟨w, hpredicate, hobject⟩ := Option.bind_eq_some_iff.mp h
      obtain ⟨hsv, ha⟩ := matchTerm_some hsubject
      obtain ⟨hvw, hknown⟩ := matchTerm_some hpredicate
      obtain ⟨hwu, hb⟩ := matchTerm_some hobject
      refine ⟨(hsv.trans hvw).trans hwu, t.subject, t.object, ha.mono (hvw.trans hwu), hb, ?_⟩
      intro other hother
      rw [hp] at hother
      cases hother
      exact ⟨t.predicate, hknown.mono hwu, ht⟩
  · contradiction

theorem mem_solveBlock {g : Graph} {triples : List TriplePattern} {s u : Solution}
    (h : u ∈ solveBlock g triples s) : s.Within u ∧ ∀ q ∈ triples, q.Matches g u := by
  induction triples generalizing s with
  | nil =>
      obtain rfl := List.mem_singleton.mp h
      exact ⟨.refl u, fun q hq => absurd hq List.not_mem_nil⟩
  | cons first triples ih =>
      obtain ⟨v, hv, hu⟩ := List.mem_flatMap.mp h
      obtain ⟨t, ht, hmatch⟩ := List.mem_filterMap.mp hv
      obtain ⟨hsv, hfirst⟩ := matchTriple_some ht hmatch
      obtain ⟨hvu, hrest⟩ := ih hu
      refine ⟨hsv.trans hvu, ?_⟩
      intro q hq
      rcases List.mem_cons.mp hq with rfl | hq
      · exact hfirst.mono hvu
      · exact hrest q hq

/-! ### Patterns -/

/-- What expressions mean: the term that one has in a solution, if any, and whether it holds there
as a condition. -/
structure Meaning where
  value : Expr → Solution → Option Term
  holds : Expr → Solution → Prop

/-- The meaning of the functions that are known here. -/
def Meaning.known : Meaning where
  value e s := e.evaluate s
  holds e s := e.holdsIn s = true

namespace Algebra

/-- Whether a solution can come out of a pattern over a graph.

A row of a left join, a difference or a slice stays admitted where other rows would take it away,
and of named graphs, remote services and aggregates nothing is known. -/
def Admits (m : Meaning) (g : Graph) : Algebra → Solution → Prop
  | .bgp triples, s => ∀ q ∈ triples, q.Matches g s
  | .join l r, s =>
    ∃ a b, l.Admits m g a ∧ r.Admits m g b ∧ a.compatible b = true ∧ s = a.merge b
  | .leftJoin l r condition, s =>
    l.Admits m g s ∨
      ∃ a b, l.Admits m g a ∧ r.Admits m g b ∧ a.compatible b = true ∧ s = a.merge b ∧
        ∀ e ∈ condition, m.holds e s
  | .filter condition p, s => p.Admits m g s ∧ m.holds condition s
  | .extend p value name, s => ∃ a, p.Admits m g a ∧ s = (m.value value a).elim a (a.assign name)
  | .union l r, s => l.Admits m g s ∨ r.Admits m g s
  | .minus l _, s => l.Admits m g s
  | .graph _ _, _ => True
  | .service _ _, _ => True
  | .values names rows, s => ∃ row ∈ rows, s = rowSolution names row
  | .subSelect p, s => p.Admits m g s
  | .aggregateJoin _, _ => True
  | .orderBy p _, s => p.Admits m g s
  | .project p names, s => ∃ a, p.Admits m g a ∧ s = a.restrict names
  | .distinct p, s => p.Admits m g s
  | .reduced p, s => p.Admits m g s
  | .slice p _ _, s => p.Admits m g s

theorem mem_joinSolutions {left right : List Solution} {s : Solution}
    (h : s ∈ joinSolutions left right) :
    ∃ a ∈ left, ∃ b ∈ right, a.compatible b = true ∧ s = a.merge b := by
  obtain ⟨a, ha, hs⟩ := List.mem_flatMap.mp h
  obtain ⟨b, hb, rfl⟩ := List.mem_map.mp hs
  obtain ⟨hb, hfits⟩ := List.mem_filter.mp hb
  exact ⟨a, ha, b, hb, hfits, rfl⟩

theorem mem_leftJoinSolutions {condition : Option Expr} {left right : List Solution}
    {s : Solution} (h : s ∈ leftJoinSolutions condition left right) :
    s ∈ left ∨ (s ∈ joinSolutions left right ∧ ∀ e ∈ condition, e.holdsIn s = true) := by
  obtain ⟨a, ha, hs⟩ := List.mem_flatMap.mp h
  split at hs
  · exact Or.inl (List.mem_singleton.mp hs ▸ ha)
  · obtain ⟨hs, hholds⟩ := List.mem_filter.mp hs
    refine Or.inr ⟨List.mem_flatMap.mpr ⟨a, ha, hs⟩, ?_⟩
    intro e he
    obtain rfl := Option.mem_def.mp he
    exact hholds

/-- What the evaluation gives is admitted. -/
theorem admits_of_mem_solutions {g : Graph} {p : Algebra} {s : Solution}
    (h : s ∈ p.solutions g) : p.Admits .known g s := by
  induction p generalizing s with
  | bgp triples => exact (mem_solveBlock h).2
  | join l r ihl ihr =>
      obtain ⟨a, ha, b, hb, hfits, hs⟩ := mem_joinSolutions h
      exact ⟨a, b, ihl ha, ihr hb, hfits, hs⟩
  | leftJoin l r condition ihl ihr =>
      rcases mem_leftJoinSolutions h with hleft | ⟨hboth, hholds⟩
      · exact Or.inl (ihl hleft)
      · obtain ⟨a, ha, b, hb, hfits, hs⟩ := mem_joinSolutions hboth
        exact Or.inr ⟨a, b, ihl ha, ihr hb, hfits, hs, hholds⟩
  | filter condition p ih =>
      obtain ⟨hp, hholds⟩ := List.mem_filter.mp h
      exact ⟨ih hp, hholds⟩
  | extend p value name ih =>
      obtain ⟨a, ha, rfl⟩ := List.mem_map.mp h
      refine ⟨a, ih ha, ?_⟩
      cases hvalue : value.evaluate a <;> simp [Meaning.known, hvalue]
  | union l r ihl ihr => exact (List.mem_append.mp h).imp ihl ihr
  | minus l r ihl _ => exact ihl (List.mem_filter.mp h).1
  | graph => trivial
  | service => trivial
  | values names rows =>
      obtain ⟨row, hrow, rfl⟩ := List.mem_map.mp h
      exact ⟨row, hrow, rfl⟩
  | subSelect p ih => exact ih h
  | aggregateJoin => trivial
  | orderBy p keys ih => exact ih (List.mem_mergeSort.mp h)
  | project p names ih =>
      obtain ⟨a, ha, rfl⟩ := List.mem_map.mp h
      exact ⟨a, ih ha, rfl⟩
  | distinct p ih => exact ih (Solution.mem_distinct h)
  | reduced p ih => exact ih (Solution.mem_distinct h)
  | slice p start length ih =>
      apply ih
      cases length with
      | none => exact List.mem_of_mem_drop h
      | some n => exact List.mem_of_mem_drop (List.mem_of_mem_take h)

end Algebra

end EntityMapping.Sparql
