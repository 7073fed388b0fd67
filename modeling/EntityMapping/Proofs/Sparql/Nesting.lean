import EntityMapping.Proofs.Entity.Type
import EntityMapping.Proofs.Sparql.Admitted
import EntityMapping.Proofs.Sparql.Projection
import EntityMapping.Store.Memory

/-!
A selection that is nested in another one, which asks for a single IRI.

Where every solution of the nested selection binds the variable that the IRI is for, the outer one
has the solutions that bind it to the IRI, and no others.  A solution that left it unbound would be
joined to whatever IRI is asked for.

All this is about the solutions as they are defined, and not about a way to find them.
-/

namespace EntityMapping.Sparql

/-! ### What a selection mentions -/

/-- Whether a selection mentions what it projects, and nothing else. -/
def Query.MentionsProjected : Query → Prop
  | .select pattern projected => pattern.mentioned = projected
  | _ => True

theorem Query.mentioned_selection (repetition : Option Repetition)
    (columns : Option (List Column)) (body : Algebra) (m : Modifiers) :
    (selection repetition columns body m).1.mentioned =
      (selection repetition columns body m).2 := by
  unfold selection
  extract_lets names aggregated conditioned joined extended ordered projected repeated sliced
  have hrepeated : repeated.mentioned = names := by
    rcases repetition with _ | _ | _ <;> rfl
  simp only [sliced]
  split <;> exact hrepeated

namespace Grammar

open Sparql.Parser

theorem query_yields_mentioned (env : Prologue) :
    (query env).Yields Query.MentionsProjected := by
  refine .after fun env => .orElse ?_ (.orElse ?_ (.orElse ?_ ?_))
  · refine .after fun _ => .after fun _ => .after fun repetition => .after fun columns =>
      .after fun _ => .after fun _ => .after fun body => .after fun modifiers =>
        .after fun values => .pure ?_
    exact Query.mentioned_selection repetition columns body.algebra _
  · exact .after fun _ => .after fun _ => .pure trivial
  · exact .after fun _ => .after fun _ => .after fun _ => .after fun _ => .after fun _ =>
      .pure trivial
  · exact .after fun _ => .after fun _ => .after fun _ => .after fun _ => .after fun _ =>
      .pure trivial

end Grammar

theorem Query.mentioned_of_read {env : Prologue} {s : String} {p : Algebra}
    {projected : List String} (h : Query.read env s = some (.select p projected)) :
    p.mentioned = projected := by
  obtain ⟨ts, -, hquery⟩ := Option.bind_eq_some_iff.mp h
  exact (Grammar.query_yields_mentioned env).parseAll hquery

/-! ### Asking for one IRI -/

namespace Algebra

/-- Inline data of a single IRI, joined to a nested selection. -/
def pointed (p : Algebra) (name iri : String) : Algebra :=
  .join (.values [name] [[some (.iri iri)]]) (.subSelect p)

/-- A selection of everything that a nested selection says about one IRI. -/
def about (p : Algebra) (name iri : String) : Query :=
  let names := distinctNames (p.pointed name iri).mentioned
  .select (.project (p.pointed name iri) names) names

/-- The solutions that are about an IRI. -/
def solutionsAbout (p : Algebra) (g : Graph) (name iri : String) : List Solution :=
  (p.solutions g).filter fun s => s.term? name = some (.iri iri)

/-- The solutions about an IRI have one term at most for another name. -/
def OneTerm (p : Algebra) (g : Graph) (name iri other : String) : Prop :=
  ∀ s ∈ p.solutionsAbout g name iri, ∀ s' ∈ p.solutionsAbout g name iri, ∀ t t',
    s.term? other = some t → s'.term? other = some t' → t.same t' = true

variable {p : Algebra} {g : Graph} {name iri : String}

theorem mem_solutionsAbout {s : Solution} :
    s ∈ p.solutionsAbout g name iri ↔ s ∈ p.solutions g ∧ s.term? name = some (.iri iri) := by
  simp [solutionsAbout]

/-- The solution that binds one name to an IRI. -/
def point (name iri : String) : Solution :=
  [(name, .iri iri)]

theorem term?_point (name iri other : String) :
    (point name iri).term? other = if other = name then some (.iri iri) else none := by
  by_cases hother : other = name
  · simp [point, Solution.term?, hother]
  · simp [point, Solution.term?, List.lookup_cons, beq_false_of_ne hother, hother]

theorem compatible_point {s : Solution} (h : s.binds name = true) :
    (point name iri).compatible s = decide (s.term? name = some (.iri iri)) := by
  obtain ⟨t, ht⟩ := Option.isSome_iff_exists.mp h
  have hpoint : (point name iri).term? name = some (.iri iri) := by rw [term?_point, if_pos rfl]
  have hall : (point name iri).compatible s = (Term.iri iri).same t := by
    simp only [Solution.compatible, point, List.all_cons, List.all_nil, Bool.and_true] at hpoint ⊢
    rw [hpoint, ht]
  rw [hall, Bool.eq_iff_iff, decide_eq_true_iff, ht, Option.some_inj, ← Term.iri_same_iff]

theorem solutions_pointed (hbound : ∀ s ∈ p.solutions g, s.binds name = true) (iri : String) :
    (p.pointed name iri).solutions g =
      (p.solutionsAbout g name iri).map (point name iri).merge := by
  have hjoin : (p.pointed name iri).solutions g =
      joinSolutions [point name iri] (p.solutions g) := rfl
  rw [hjoin, joinSolutions, List.flatMap_singleton, solutionsAbout]
  refine congrArg _ (List.filter_congr fun s hs => ?_)
  exact compatible_point (hbound s hs)

/-- What is joined to a solution about an IRI is in it already. -/
theorem term?_merge_point {s : Solution} (h : s.term? name = some (.iri iri)) (other : String) :
    ((point name iri).merge s).term? other = s.term? other := by
  rw [Solution.term?_merge, term?_point]
  by_cases hother : other = name
  · rw [if_pos hother, hother, h]
    rfl
  · rw [if_neg hother]
    rfl

end Algebra

end EntityMapping.Sparql

namespace EntityMapping

open Sparql (Algebra Solution)

open MemoryStore (row)

/-! ### Rows -/

theorem MemoryStore.term?_row (names : List String) (s : Solution) (name : String) :
    (row names s).term? name = if name ∈ names then s.term? name else none := by
  have hlookup : ∀ found : List String,
      (found.map fun n => (n, s.term? n)).lookup name =
        if name ∈ found then some (s.term? name) else none := by
    intro found
    induction found with
    | nil => rfl
    | cons first found ih =>
        by_cases hfirst : name = first
        · simp [hfirst]
        · simpa [List.lookup_cons, beq_false_of_ne hfirst, hfirst] using ih
  rw [Row.term?, row, hlookup]
  simp only [Algebra.mem_distinctNames]
  split <;> rfl

/-- The rows of solutions.  One that binds none of the projected names has no row. -/
def rowsOf (names : List String) (found : List Solution) : List Row :=
  (found.filter fun s => names.any s.binds).map (row names)

/-- The rows of the solutions of a selection. -/
def solutionRows (g : Graph) (p : Algebra) (names : List String) : List Row :=
  rowsOf names (p.solutions g)

variable {g : Graph} {p : Algebra} {names : List String} {name other iri : String}
  {found : List Solution}

/-- Where some name is bound that is projected, every solution has its row. -/
theorem rowsOf_eq (hname : name ∈ names) (hbound : ∀ s ∈ found, s.binds name = true) :
    rowsOf names found = found.map (row names) := by
  rw [rowsOf, List.filter_eq_self.mpr]
  intro s hs
  exact List.any_eq_true.mpr ⟨name, hname, hbound s hs⟩

/-- The rows of solutions that were joined to an IRI, which they bind already, have the terms of
these solutions. -/
theorem terms_rowsOf_joined (hname : name ∈ names) (hother : other ∈ names)
    (habout : ∀ s ∈ found, s.term? name = some (.iri iri)) :
    (rowsOf names (found.map fun s => ((Algebra.point name iri).merge s).restrict names)).map
        (·.term? other) =
      found.map (·.term? other) := by
  have hterm : ∀ s ∈ found, ∀ n ∈ names,
      (((Algebra.point name iri).merge s).restrict names).term? n = s.term? n := by
    intro s hs n hn
    rw [Solution.term?_restrict, if_pos hn, Algebra.term?_merge_point (habout s hs)]
  rw [rowsOf_eq hname, List.map_map, List.map_map]
  · refine List.map_congr_left fun s hs => ?_
    simp only [Function.comp_apply, MemoryStore.term?_row, if_pos hother]
    exact hterm s hs other hother
  · intro s hs
    obtain ⟨u, hu, rfl⟩ := List.mem_map.mp hs
    rw [Solution.binds, hterm u hu name hname, habout u hu]
    rfl

/-- What a selection about one IRI shows of the nested one. -/
theorem mem_shown (hother : other ∈ p.mentioned) :
    other ∈ Algebra.distinctNames (p.pointed name iri).mentioned :=
  Algebra.mem_distinctNames.mpr (List.mem_append_right _ hother)

/-- The terms that the rows of a selection about one IRI have for a name that the nested selection
mentions. -/
theorem terms_solutionRows_about (iri : String)
    (hbound : ∀ s ∈ p.solutions g, s.binds name = true) (hname : name ∈ p.mentioned)
    (hother : other ∈ p.mentioned) :
    let outer := Algebra.distinctNames (p.pointed name iri).mentioned
    (solutionRows g (.project (p.pointed name iri) outer) outer).map (·.term? other) =
      (p.solutionsAbout g name iri).map (·.term? other) := by
  intro outer
  have hsolutions : (Algebra.project (p.pointed name iri) outer).solutions g =
      (p.solutionsAbout g name iri).map fun s =>
        ((Algebra.point name iri).merge s).restrict outer := by
    rw [Algebra.solutions, Algebra.solutions_pointed hbound, List.map_map]
    rfl
  rw [solutionRows, hsolutions]
  exact terms_rowsOf_joined (mem_shown hname) (mem_shown hother) fun s hs =>
    (Algebra.mem_solutionsAbout.mp hs).2

namespace EntityType

theorem subjectOf?_eq_some {t : EntityType} {r : Row} :
    t.subjectOf? r = some iri ↔ r.term? t.anchor = some (.iri iri) := by
  unfold subjectOf?
  cases r.term? t.anchor with
  | none => simp
  | some term => cases term <;> simp

/-- The rows that are about an IRI are those of the solutions about it. -/
theorem rowsAbout_rowsOf {t : EntityType} (hanchor : t.anchor ∈ names) :
    t.rowsAbout iri (rowsOf names found) =
      (found.filter fun s => s.term? t.anchor = some (.iri iri)).map (row names) := by
  rw [rowsOf, rowsAbout, List.filter_map, List.filter_filter]
  refine congrArg _ (List.filter_congr fun s _ => ?_)
  rw [Function.comp_apply, Bool.eq_iff_iff, Bool.and_eq_true, beq_iff_eq, subjectOf?_eq_some,
    MemoryStore.term?_row, if_pos hanchor, decide_eq_true_iff, List.any_eq_true,
    and_iff_left_iff_imp]
  intro hterm
  exact ⟨t.anchor, hanchor, by rw [Solution.binds, hterm]; rfl⟩

theorem terms_rowsAbout (t : EntityType) (iri : String) (hanchor : t.anchor ∈ names)
    (hother : other ∈ names) :
    (t.rowsAbout iri (solutionRows g p names)).map (·.term? other) =
      (p.solutionsAbout g t.anchor iri).map (·.term? other) := by
  rw [solutionRows, rowsAbout_rowsOf hanchor, List.map_map]
  refine List.map_congr_left fun s _ => ?_
  rw [Function.comp_apply, MemoryStore.term?_row, if_pos hother]

end EntityType

end EntityMapping
