import EntityMapping.Proofs.Analysis.Owner
import EntityMapping.Proofs.Session.Lookup

/-!
When a load of one IRI finds an entity.

The selection of one IRI joins the IRI to the nested selection.  What binds the anchor to the IRI
fits it, and so does what leaves the anchor unbound: there the IRI that is asked for is taken for the
anchor.  A query that binds its anchor outside every optional part has no such solution, and only
what is there is found.
-/

namespace EntityMapping

open Sparql (Algebra Prologue Query Solution)

namespace Sparql.Algebra

variable {p : Algebra} {g : Graph} {name iri : String}

theorem compatible_point_iff {s : Solution} :
    (point name iri).compatible s = true ↔
      s.term? name = some (.iri iri) ∨ s.binds name = false := by
  cases hbinds : s.binds name with
  | true => simp [compatible_point hbinds]
  | false =>
      have hnone : s.term? name = none := by simpa [Solution.binds] using hbinds
      simp [Solution.compatible, point, hnone]

/-- Of the nested selection, the solutions about the IRI are joined to it, and those that leave the
name unbound. -/
theorem mem_solutions_pointed {s : Solution} :
    s ∈ (p.pointed name iri).solutions g ↔
      ∃ inner ∈ p.solutions g,
        (inner.term? name = some (.iri iri) ∨ inner.binds name = false) ∧
          (point name iri).merge inner = s := by
  have hjoin : (p.pointed name iri).solutions g =
      joinSolutions [point name iri] (p.solutions g) := rfl
  rw [hjoin, joinSolutions, List.flatMap_singleton, List.mem_map]
  simp only [List.mem_filter, compatible_point_iff, and_assoc]

/-- Either way the IRI is what the name is bound to. -/
theorem term?_of_mem_pointed {s : Solution} (h : s ∈ (p.pointed name iri).solutions g) :
    s.term? name = some (.iri iri) := by
  obtain ⟨inner, -, -, rfl⟩ := mem_solutions_pointed.mp h
  rw [Solution.term?_merge, term?_point, if_pos rfl]
  rfl

end Sparql.Algebra

/-- The rows of a selection about one IRI are all about it, and there are some exactly if a solution
of the nested selection fits the IRI. -/
theorem rows_about {t : EntityType} {p : Algebra} (g : Graph) (uri : String) :
    let outer := Algebra.distinctNames (p.pointed t.anchor uri).mentioned
    let rows := solutionRows g (.project (p.pointed t.anchor uri) outer) outer
    (∀ row ∈ rows, t.subjectOf? row = some uri) ∧
      (rows = [] ↔ (p.pointed t.anchor uri).solutions g = []) := by
  intro outer rows
  have houter : t.anchor ∈ outer :=
    Algebra.mem_distinctNames.mpr (List.mem_append_left _ (List.mem_singleton.mpr rfl))
  have hterm : ∀ s ∈ (Algebra.project (p.pointed t.anchor uri) outer).solutions g,
      s.term? t.anchor = some (.iri uri) := by
    intro s hs
    obtain ⟨inner, hinner, rfl⟩ := List.mem_map.mp hs
    rw [Solution.term?_restrict, if_pos houter]
    exact Algebra.term?_of_mem_pointed hinner
  have hrows : rows =
      ((Algebra.project (p.pointed t.anchor uri) outer).solutions g).map (MemoryStore.row outer) :=
    rowsOf_eq houter fun s hs => by rw [Solution.binds, hterm s hs]; rfl
  constructor
  · intro row hrow
    rw [hrows] at hrow
    obtain ⟨s, hs, rfl⟩ := List.mem_map.mp hrow
    rw [EntityType.subjectOf?_eq_some, MemoryStore.term?_row, if_pos houter, hterm s hs]
  · rw [hrows, List.map_eq_nil_iff]
    exact List.map_eq_nil_iff

namespace Session

variable {σ : Type} [GraphStore σ]

/-- Whatever was done with a session whose store answers by the solutions in a graph, an IRI that is
not in its cache is found exactly if some solution binds the anchor to it or leaves the anchor
unbound.  Where the query has the anchor in a triple outside its optional parts, it is found exactly
if a solution binds the anchor to it. -/
theorem load_finds_iff {name : String} {q : SelectQuery} {anchor : Option String}
    {namespaceIri : String} {hints : SchemaHints} {overrides : List (String × Override)}
    {t : EntityType}
    (ht : EntityType.ofQuery name q anchor namespaceIri hints overrides = .ok t)
    {uri : String} {iri : Term} (hiri : checkIri uri = .ok iri) {env : Prologue} {p : Algebra}
    (hread : t.ReadAs env uri p) (g : Graph) (store : σ) (suffixes : Suffixes) (size : Nat)
    (calls : List (Call σ)) :
    let s := Call.runAll (.ofStore store suffixes size) calls
    Answers s.store env g (t.oneText iri) → (s.cached t uri).1 = none →
    ∃ found one, s.load t uri = (.ok found, one) ∧
      (found ≠ none ↔ ∃ solution ∈ p.solutions g,
        solution.term? t.anchor = some (.iri uri) ∨ solution.binds t.anchor = false) ∧
      (t.query.pattern.Requires t.anchor →
        (found ≠ none ↔ ∃ solution ∈ p.solutions g,
          solution.term? t.anchor = some (.iri uri))) := by
  intro s hstore hnone
  have hs : PinsDirty size s := pinsDirty_runAll (pinsDirty_ofStore store suffixes size) calls
  obtain ⟨rfl, -⟩ := checkIri_ok hiri
  obtain ⟨habout, hempty⟩ := rows_about (t := t) (p := p) g uri
  obtain ⟨rows, hanswer, hperm⟩ := hstore _ _ hread.one
  obtain ⟨found, one, hload, hfound, -⟩ := exists_load hs hnone hiri hanswer fun row hrow =>
    habout row (hperm.mem_iff.mp hrow)
  have hiff : found ≠ none ↔ ∃ solution ∈ p.solutions g,
      solution.term? t.anchor = some (.iri uri) ∨ solution.binds t.anchor = false := by
    have hnil : rows = [] ↔ (p.pointed t.anchor uri).solutions g = [] := by
      rw [← hempty]
      exact ⟨fun h => (h ▸ hperm).symm.eq_nil, fun h => (h ▸ hperm).eq_nil⟩
    rw [Ne, hfound, hnil, List.eq_nil_iff_forall_not_mem, not_forall_not]
    simp only [Algebra.mem_solutions_pointed]
    constructor
    · rintro ⟨_, solution, hsolution, hfits, -⟩
      exact ⟨solution, hsolution, hfits⟩
    · rintro ⟨solution, hsolution, hfits⟩
      exact ⟨_, solution, hsolution, hfits, rfl⟩
  refine ⟨found, one, hload, hiff, fun hrequires => hiff.trans ?_⟩
  have hbinds := EntityType.binds_anchor ht hrequires hread g
  refine exists_congr fun solution => and_congr_right fun hsolution => ?_
  simp [hbinds solution hsolution]

theorem load_finds_titled :
    let s := ofStore titledStore (.ofSequence toString) 1
    titledType.ReadAs s.store.prologue "http://e/n1" titledPattern ∧
    ∃ found one, s.load titledType "http://e/n1" = (.ok found, one) ∧ found ≠ none := by
  intro s
  have hmade : EntityType.ofQuery "Note" titledType.query none "http://e/" .none [] =
      .ok titledType := rfl
  have hiri : checkIri "http://e/n1" = .ok (.iri "http://e/n1") := rfl
  have hrequires : titledType.query.pattern.Requires titledType.anchor :=
    ⟨_, List.mem_cons_self, Or.inl rfl⟩
  obtain ⟨found, one, hload, -, hfound⟩ := load_finds_iff hmade hiri readAs_titled
    titledStore.graph titledStore (.ofSequence toString) 1 [] (answers_titled _ readAs_titled.one rfl)
    rfl
  refine ⟨readAs_titled, found, one, hload, (hfound hrequires).mpr ?_⟩
  decide +kernel

/-- People with names, who may have notes with titles. -/
def authoredText : String :=
  "SELECT ?person ?note ?title WHERE \x7b ?person <http://e/name> ?name OPTIONAL \x7b " ++
    "?person <http://e/note> ?note . ?note <http://e/title> ?title \x7d \x7d"

/-- One of two people has a note. -/
def authoredStore : MemoryStore :=
  { MemoryStore.empty with graph :=
    [.stating "http://e/p1" "http://e/name" (.literal (.plain "Ann")),
      .stating "http://e/p2" "http://e/name" (.literal (.plain "Bob")),
      .stating "http://e/p2" "http://e/note" (.iri "http://e/n2"),
      .stating "http://e/n2" "http://e/title" (.literal (.plain "b"))] }

/-- A person without a note makes a note of every IRI that is asked for. -/
theorem load_finds_unstated :
    let s := ofStore authoredStore (.ofSequence toString) 1
    ∃ q t p found one, SelectQuery.read [] authoredText = .ok q ∧
      EntityType.ofQuery "Note" q (some "note") "http://e/" .none [] = .ok t ∧
      Query.read s.store.prologue t.allText = some (.select p q.projected) ∧
      (s.cached t "http://e/n1").1 = none ∧
      s.load t "http://e/n1" = (.ok (some found), one) ∧
      ∀ solution ∈ p.solutions s.store.graph,
        solution.term? t.anchor ≠ some (.iri "http://e/n1") := by
  intro s
  have hfound : ((SelectQuery.read [] authoredText).toOption.any fun q =>
      (EntityType.ofQuery "Note" q (some "note") "http://e/" .none []).toOption.any fun t =>
        (s.cached t "http://e/n1").1.isNone && t.allText == authoredText && t.anchor == "note" &&
          (s.load t "http://e/n1").1.toOption.any Option.isSome) = true := by
    decide +kernel
  have hsolved : ((Query.read s.store.prologue authoredText).any fun query =>
      (query.solutions s.store.graph).all fun solution =>
        solution.term? "note" != some (.iri "http://e/n1")) = true := by
    decide +kernel
  cases hread : SelectQuery.read [] authoredText with
  | error e => simp [hread, Except.toOption] at hfound
  | ok q =>
      cases hmade : EntityType.ofQuery "Note" q (some "note") "http://e/" .none [] with
      | error e => simp [hread, hmade, Except.toOption] at hfound
      | ok t =>
          simp only [hread, hmade, Except.toOption, Option.any_some, Bool.and_eq_true,
            Option.isNone_iff_eq_none, beq_iff_eq] at hfound
          obtain ⟨⟨⟨hnew, htext⟩, hanchor⟩, hload⟩ := hfound
          obtain ⟨pattern, hquery, -⟩ := SelectQuery.read_ok hread
          have hall : Query.read s.store.prologue t.allText = some (.select pattern q.projected) :=
            htext ▸ hquery
          rw [show Query.read s.store.prologue authoredText = some (.select pattern q.projected)
            from hquery, Option.any_some, List.all_eq_true] at hsolved
          generalize hloaded : s.load t "http://e/n1" = loaded at hload
          obtain ⟨_ | _ | found, one⟩ := loaded
          · exact Bool.noConfusion hload
          · exact Bool.noConfusion hload
          · refine ⟨q, t, pattern, found, one, rfl, hmade, hall, hnew, hloaded, fun solution h => ?_⟩
            rw [hanchor]
            exact bne_iff_ne.mp (hsolved solution h)

end Session

end EntityMapping
