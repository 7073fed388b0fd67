import EntityMapping.Proofs.Analysis.Links
import EntityMapping.Proofs.Analysis.Reach

/-!
What it means that a variable has a single value.

The analysis follows links from the anchor: against a link always, along it unless the predicate may
lead to many.  In a graph that bears the hints out, such a step leads from one term to one term only.
So two matches of the pattern that agree on the anchor agree on all that such steps lead to.
-/

namespace EntityMapping

open Sparql (TriplePattern)

/-! ### Graphs that bear the hints out -/

namespace Graph

/-- Every subject has at most one object under the predicate. -/
def SingleObject (g : Graph) (predicate : String) : Prop :=
  ∀ t ∈ g, ∀ u ∈ g, t.predicate = .iri predicate → u.predicate = .iri predicate →
    t.subject.same u.subject = true → t.object.same u.object = true

/-- Every object has at most one subject under the predicate. -/
def SingleSubject (g : Graph) (predicate : String) : Prop :=
  ∀ t ∈ g, ∀ u ∈ g, t.predicate = .iri predicate → u.predicate = .iri predicate →
    t.object.same u.object = true → t.subject.same u.subject = true

variable {g : Graph} {predicate : String} {s s' o o' : Term}

/-- What the graph holds under a predicate is a triple of its list in other words. -/
theorem exists_of_holds (h : g.holds ⟨s, .iri predicate, o⟩ = true) :
    ∃ t ∈ g, t.predicate = .iri predicate ∧ t.subject.same s = true ∧ t.object.same o = true := by
  obtain ⟨t, ht, hsame⟩ := holds_iff.mp h
  simp only [Triple.same, Bool.and_eq_true] at hsame
  exact ⟨t, ht, Term.iri_same_iff.mp hsame.1.2, Term.same_comm s _ ▸ hsame.1.1,
    Term.same_comm o _ ▸ hsame.2⟩

theorem SingleObject.object_same (h : g.SingleObject predicate)
    (hleft : g.holds ⟨s, .iri predicate, o⟩ = true)
    (hright : g.holds ⟨s', .iri predicate, o'⟩ = true) (hs : s.same s' = true) :
    o.same o' = true := by
  obtain ⟨t, ht, htp, hts, hto⟩ := exists_of_holds hleft
  obtain ⟨u, hu, hup, hus, huo⟩ := exists_of_holds hright
  have hsubjects : t.subject.same u.subject = true :=
    Term.same_trans (Term.same_trans hts hs) (Term.same_comm _ s' ▸ hus)
  have hobjects := h t ht u hu htp hup hsubjects
  exact Term.same_trans (Term.same_trans (Term.same_comm _ o ▸ hto) hobjects) huo

theorem SingleSubject.subject_same (h : g.SingleSubject predicate)
    (hleft : g.holds ⟨s, .iri predicate, o⟩ = true)
    (hright : g.holds ⟨s', .iri predicate, o'⟩ = true) (ho : o.same o' = true) :
    s.same s' = true := by
  obtain ⟨t, ht, htp, hts, hto⟩ := exists_of_holds hleft
  obtain ⟨u, hu, hup, hus, huo⟩ := exists_of_holds hright
  have hobjects : t.object.same u.object = true :=
    Term.same_trans (Term.same_trans hto ho) (Term.same_comm _ o' ▸ huo)
  have hsubjects := h t ht u hu htp hup hobjects
  exact Term.same_trans (Term.same_trans (Term.same_comm _ s ▸ hts) hsubjects) hus

end Graph

/-! ### Matches -/

/-- Terms for the variables and the blank nodes of a pattern. -/
structure Assignment where
  var : String → Term
  blank : String → Term

namespace Assignment

/-- What stands for a term of a pattern. -/
def term (σ : Assignment) : Term → Term
  | .var name => σ.var name
  | .blank label => σ.blank label
  | t => t

/-- The graph holds the triple that the assignment makes of a pattern. -/
def Meets (σ : Assignment) (g : Graph) (t : TriplePattern) : Prop :=
  ∃ p, t.predicate = .step p ∧ g.holds ⟨σ.term t.subject, σ.term p, σ.term t.object⟩ = true

theorem Meets.of_link {σ : Assignment} {g : Graph} {d : Dependency} (h : σ.Meets g d.pattern) :
    g.holds ⟨σ.var d.subject, .iri d.predicate, σ.var d.object⟩ = true := by
  obtain ⟨p, hp, hholds⟩ := h
  obtain rfl := Sparql.Path.step.inj hp
  exact hholds

end Assignment

/-! ### Steps -/

namespace Dependency

variable {isOneToMany : String → Bool} {ds : List Dependency} {x y : String}

/-- A step that keeps a value single goes against a link, or along one that does not lead to
many. -/
theorem step_functionalEdges : Reach.Step (functionalEdges isOneToMany ds) x y ↔
    ∃ d ∈ ds, (d.object = x ∧ d.subject = y) ∨
      (isOneToMany d.predicate = false ∧ d.subject = x ∧ d.object = y) := by
  rw [Reach.Step, functionalEdges, List.mem_flatMap]
  refine exists_congr fun d => and_congr_right fun _ => ?_
  cases isOneToMany d.predicate <;> simp [eq_comm, or_comm]

theorem step_edges : Reach.Step (edges ds) x y ↔
    ∃ d ∈ ds, (d.subject = x ∧ d.object = y) ∨ (d.object = x ∧ d.subject = y) := by
  rw [Reach.Step, edges, List.mem_flatMap]
  refine exists_congr fun d => and_congr_right fun _ => ?_
  simp [eq_comm]

end Dependency

namespace Analysis

/-- Two variables are connected: links lead from one to the other, whatever their directions. -/
def Connected (a : Analysis) : String → String → Prop :=
  Relation.ReflTransGen fun x y =>
    ∃ d ∈ a.dependencies, (d.subject = x ∧ d.object = y) ∨ (d.object = x ∧ d.subject = y)

theorem connected_iff {a : Analysis} {x y : String} :
    a.Connected x y ↔ Reach.Path (Dependency.edges a.dependencies) x y := by
  have hsteps : Reach.Step (Dependency.edges a.dependencies) = fun x y =>
      ∃ d ∈ a.dependencies, (d.subject = x ∧ d.object = y) ∨ (d.object = x ∧ d.subject = y) := by
    funext x y
    exact propext Dependency.step_edges
  rw [Connected, Reach.Path, hsteps]

/-- Of what is connected to the anchor, single values are found by steps that keep them single. -/
theorem isFunctional_iff {hints : SchemaHints} {ds : List Dependency} {anchor name : String}
    (hconnected : Reach.Path (Dependency.edges ds) anchor name) :
    isFunctional hints ds anchor name = true ↔
      Reach.Path (Dependency.functionalEdges hints.isOneToMany ds) anchor name := by
  rw [← Reach.mem_closure] at hconnected ⊢
  simp [isFunctional, hconnected]

/-- Agreement is kept by every step that keeps values single, hence along paths of them. -/
theorem agree_of_path {hints : SchemaHints} {ds : List Dependency} {g : Graph}
    (hobjects : ∀ p, p ∉ hints.oneToMany → g.SingleObject p) (hsubjects : ∀ p, g.SingleSubject p)
    {σ τ : Assignment} (hσ : ∀ d ∈ ds, σ.Meets g d.pattern) (hτ : ∀ d ∈ ds, τ.Meets g d.pattern)
    {x y : String} (hpath : Reach.Path (Dependency.functionalEdges hints.isOneToMany ds) x y)
    (hx : (σ.var x).same (τ.var x) = true) : (σ.var y).same (τ.var y) = true := by
  induction hpath with
  | refl => exact hx
  | tail _ hstep ih =>
      obtain ⟨d, hd, ⟨rfl, rfl⟩ | ⟨hsingle, rfl, rfl⟩⟩ := Dependency.step_functionalEdges.mp hstep
      · exact (hsubjects d.predicate).subject_same (hσ d hd).of_link (hτ d hd).of_link ih
      · have hunlisted : d.predicate ∉ hints.oneToMany := by
          simpa [SchemaHints.isOneToMany] using hsingle
        exact (hobjects d.predicate hunlisted).object_same (hσ d hd).of_link (hτ d hd).of_link ih

/-- In a graph in which the predicates that the hints do not list have one object for a subject, and
all have one subject for an object, two matches of the pattern that agree on the anchor agree on
every variable that is found to have a single value and is connected to the anchor. -/
theorem agree_of_functional {q : SelectQuery} {anchor : String} {hints : SchemaHints}
    {a : Analysis} (h : derive q anchor hints = .ok a) {g : Graph}
    (hobjects : ∀ p, p ∉ hints.oneToMany → g.SingleObject p) (hsubjects : ∀ p, g.SingleSubject p)
    {σ τ : Assignment} (hσ : ∀ t ∈ q.pattern.triples, σ.Meets g t)
    (hτ : ∀ t ∈ q.pattern.triples, τ.Meets g t)
    (hanchor : (σ.var anchor).same (τ.var anchor) = true) {name : String}
    {v : VariableProperties} (hv : (name, v) ∈ a.described) (hfunctional : v.functional = true)
    (hconnected : a.Connected anchor name) : (σ.var name).same (τ.var name) = true := by
  obtain ⟨visits, hmade⟩ := exists_madeOf h
  have htriples : ∀ d ∈ Visit.dependencies visits, d.pattern ∈ q.pattern.triples :=
    fun d hd => (Dependency.pattern_mem hmade.walk hd).1
  have hpath := connected_iff.mp hconnected
  rw [hmade.dependencies] at hpath
  rw [(propertiesOf_ok (hmade.described name v hv).2).2.1, isFunctional_iff hpath] at hfunctional
  exact agree_of_path hobjects hsubjects (fun d hd => hσ _ (htriples d hd))
    (fun d hd => hτ _ (htriples d hd)) hfunctional hanchor

/-- A note, its tags, and the page of the person who wrote it. -/
def pagesOfAuthors : SelectQuery :=
  .ofPattern ["note", "page", "tag"] (.group [
    .basic [.plain (.var "note") (.iri "e:author") (.var "person"),
      .plain (.var "page") (.iri "e:owner") (.var "person")],
    .basic [.plain (.var "note") (.iri "e:tag") (.var "tag")]])

/-- Seen from the note, there is one page but there may be many tags. -/
def seenFromNote : Analysis where
  anchor := "note"
  described := [("page", ⟨true, false, "Entity", true, none⟩),
    ("tag", ⟨false, false, "Literal", false, some "e:tag"⟩)]
  dependencies := [⟨"note", "e:author", "person", false⟩, ⟨"page", "e:owner", "person", false⟩,
    ⟨"note", "e:tag", "tag", false⟩]
  ambiguous := []

/-- A note with two tags. -/
def taggedTwice : Graph :=
  [⟨.iri "e:n", .iri "e:author", .blank "b"⟩, ⟨.iri "e:p", .iri "e:owner", .blank "b"⟩,
    ⟨.iri "e:n", .iri "e:tag", .iri "e:x"⟩, ⟨.iri "e:n", .iri "e:tag", .iri "e:y"⟩]

/-- The match with one of the tags. -/
def matchWith (tag : String) : Assignment where
  var name := if name = "note" then .iri "e:n" else if name = "page" then .iri "e:p"
    else if name = "person" then .blank "b" else .iri tag
  blank := .blank

/-- The page is reached along one link and against another, over a variable that is not projected;
the two matches differ in the tag. -/
theorem agree_on_page :
    ∃ a v, derive pagesOfAuthors "note" ⟨["e:tag"], [], []⟩ = .ok a ∧
      ("page", v) ∈ a.described ∧ v.functional = true ∧ a.Connected "note" "page" ∧
      (matchWith "e:x").var "tag" ≠ (matchWith "e:y").var "tag" ∧
      ((matchWith "e:x").var "page").same ((matchWith "e:y").var "page") = true := by
  have hobjects : ∀ p, p ∉ ["e:tag"] → taggedTwice.SingleObject p := by
    have hlisted : ∀ t ∈ taggedTwice, ∀ u ∈ taggedTwice, t.predicate = u.predicate →
        t.predicate ≠ .iri "e:tag" → t.object.same u.object = true := by decide
    intro p hp t ht u hu htp hup _
    refine hlisted t ht u hu (htp.trans hup.symm) fun htag => hp ?_
    exact List.mem_singleton.mpr (Term.iri.inj (htp.symm.trans htag))
  have hsubjects : ∀ p, taggedTwice.SingleSubject p := by
    have hall : ∀ t ∈ taggedTwice, ∀ u ∈ taggedTwice, t.predicate = u.predicate →
        t.subject.same u.subject = true := by decide
    exact fun p t ht u hu htp hup _ => hall t ht u hu (htp.trans hup.symm)
  have hmeets : ∀ tag ∈ ["e:x", "e:y"], ∀ t ∈ pagesOfAuthors.pattern.triples,
      (matchWith tag).Meets taggedTwice t := by
    intro tag htag t ht
    rcases List.mem_cons.mp ht with rfl | ht
    · exact ⟨_, rfl, rfl⟩
    rcases List.mem_cons.mp ht with rfl | ht
    · exact ⟨_, rfl, rfl⟩
    obtain rfl := List.mem_singleton.mp ht
    simp only [List.mem_cons, List.not_mem_nil, or_false] at htag
    rcases htag with rfl | rfl
    · exact ⟨_, rfl, by decide⟩
    · exact ⟨_, rfl, by decide⟩
  have hderive : derive pagesOfAuthors "note" ⟨["e:tag"], [], []⟩ = .ok seenFromNote := rfl
  have hpage : ("page", _) ∈ seenFromNote.described := List.mem_cons_self
  have hconnected : seenFromNote.Connected "note" "page" :=
    .tail (.single ⟨⟨"note", "e:author", "person", false⟩, by decide, Or.inl ⟨rfl, rfl⟩⟩)
      ⟨⟨"page", "e:owner", "person", false⟩, by decide, Or.inr ⟨rfl, rfl⟩⟩
  exact ⟨_, _, hderive, hpage, rfl, hconnected, by decide,
    agree_of_functional hderive hobjects hsubjects (hmeets "e:x" (by decide))
      (hmeets "e:y" (by decide)) (by decide) hpage rfl hconnected⟩

end Analysis

end EntityMapping
