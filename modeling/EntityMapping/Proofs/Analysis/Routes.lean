import EntityMapping.Proofs.Analysis.Functional

/-!
When a variable may have many values.

A route crosses links, each in either direction.  It keeps values single as long as it crosses no
link along which a subject may have many objects, from the subject to the object.  A variable may
have many values exactly if routes lead to it from the anchor and none of them keeps values single.
-/

namespace EntityMapping

open Sparql (TriplePattern)

/-- A link that is crossed, from its subject to its object or the other way round. -/
structure Crossing where
  link : Dependency
  isForward : Bool
  deriving DecidableEq, Repr

namespace Crossing

/-- Where a crossing begins. -/
def start (c : Crossing) : String :=
  if c.isForward then c.link.subject else c.link.object

/-- Where a crossing ends. -/
def finish (c : Crossing) : String :=
  if c.isForward then c.link.object else c.link.subject

/-- Whether a crossing may lead from one value to many. -/
def Spreads (hints : SchemaHints) (c : Crossing) : Prop :=
  c.isForward = true ∧ c.link.predicate ∈ hints.oneToMany

end Crossing

/-- The routes over some links: each crossing begins where the one before it ends. -/
inductive Route (ds : List Dependency) : String → List Crossing → String → Prop where
  | stay (x : String) : Route ds x [] x
  | cross {c : Crossing} {rest : List Crossing} {y : String} (hlink : c.link ∈ ds)
      (hrest : Route ds c.finish rest y) : Route ds c.start (c :: rest) y

namespace Route

variable {ds : List Dependency} {edges : List (String × String)} {allowed : Crossing → Prop}
  {x y : String}

/-- Paths along edges are routes of allowed crossings, if edges are allowed crossings. -/
theorem path_iff (hstep : ∀ {x y}, Reach.Step edges x y ↔
      ∃ c : Crossing, c.link ∈ ds ∧ allowed c ∧ c.start = x ∧ c.finish = y) :
    Reach.Path edges x y ↔ ∃ route, Route ds x route y ∧ ∀ c ∈ route, allowed c := by
  constructor
  · intro hpath
    induction hpath using Relation.ReflTransGen.head_induction_on with
    | refl => exact ⟨[], .stay y, by simp⟩
    | head hfirst _ ih =>
        obtain ⟨c, hlink, hallowed, rfl, rfl⟩ := hstep.mp hfirst
        obtain ⟨rest, hrest, hall⟩ := ih
        exact ⟨c :: rest, .cross hlink hrest, List.forall_mem_cons.mpr ⟨hallowed, hall⟩⟩
  · rintro ⟨route, hroute, hall⟩
    induction hroute with
    | stay x => exact .refl
    | cross hlink _ ih =>
        obtain ⟨hallowed, hrest⟩ := List.forall_mem_cons.mp hall
        exact .head (hstep.mpr ⟨_, hlink, hallowed, rfl, rfl⟩) (ih hrest)

theorem step_edges_iff : Reach.Step (Dependency.edges ds) x y ↔
    ∃ c : Crossing, c.link ∈ ds ∧ True ∧ c.start = x ∧ c.finish = y := by
  rw [Dependency.step_edges]
  constructor
  · rintro ⟨d, hd, ⟨rfl, rfl⟩ | ⟨rfl, rfl⟩⟩
    · exact ⟨⟨d, true⟩, hd, trivial, rfl, rfl⟩
    · exact ⟨⟨d, false⟩, hd, trivial, rfl, rfl⟩
  · rintro ⟨⟨d, _ | _⟩, hd, -, rfl, rfl⟩
    · exact ⟨d, hd, Or.inr ⟨rfl, rfl⟩⟩
    · exact ⟨d, hd, Or.inl ⟨rfl, rfl⟩⟩

theorem step_functionalEdges_iff {hints : SchemaHints} :
    Reach.Step (Dependency.functionalEdges hints.isOneToMany ds) x y ↔
      ∃ c : Crossing, c.link ∈ ds ∧ ¬ c.Spreads hints ∧ c.start = x ∧ c.finish = y := by
  rw [Dependency.step_functionalEdges]
  constructor
  · rintro ⟨d, hd, ⟨rfl, rfl⟩ | ⟨hsingle, rfl, rfl⟩⟩
    · exact ⟨⟨d, false⟩, hd, by simp [Crossing.Spreads], rfl, rfl⟩
    · have hunlisted : d.predicate ∉ hints.oneToMany := by
        simpa [SchemaHints.isOneToMany] using hsingle
      exact ⟨⟨d, true⟩, hd, fun hspreads => hunlisted hspreads.2, rfl, rfl⟩
  · rintro ⟨⟨d, _ | _⟩, hd, hsingle, rfl, rfl⟩
    · exact ⟨d, hd, Or.inl ⟨rfl, rfl⟩⟩
    · refine ⟨d, hd, Or.inr ⟨?_, rfl, rfl⟩⟩
      simpa [SchemaHints.isOneToMany, Crossing.Spreads] using hsingle

end Route

namespace Dependency

/-- Every triple between two variables makes a link, whether they are projected or not. -/
theorem mem_dependencies_iff {p : Pattern} {visits : List Visit}
    (hvisits : Visit.all p = .ok visits) {subject predicate object : String} :
    (∃ optional, ⟨subject, predicate, object, optional⟩ ∈ Visit.dependencies visits) ↔
      TriplePattern.plain (.var subject) (.iri predicate) (.var object) ∈ p.triples := by
  constructor
  · rintro ⟨optional, hd⟩
    exact (pattern_mem hvisits hd).1
  · intro ht
    obtain ⟨next, hwalk⟩ := Visit.all_ok hvisits
    rw [← Visit.map_pattern_ofPattern hwalk] at ht
    obtain ⟨v, hv, hpattern⟩ := List.mem_map.mp ht
    obtain ⟨hsubject, hpredicate, hobject⟩ := TriplePattern.mk.inj hpattern
    obtain rfl := Term.iri.inj (Sparql.Path.step.inj hpredicate)
    refine ⟨!v.context.isEmpty, List.mem_eraseDups.mpr (List.mem_filterMap.mpr ⟨v, hv, ?_⟩)⟩
    simp only [Visit.dependency?, hsubject, hobject]

end Dependency

namespace Analysis

/-- The links are those of the triples between two variables.  A variable may have many values
exactly if some route leads to it from the anchor, and every such route crosses a link whose
predicate may lead to many, from its subject to its object. -/
theorem functional_eq_false_iff {q : SelectQuery} {anchor : String} {hints : SchemaHints}
    {a : Analysis} (h : derive q anchor hints = .ok a) {name : String} {v : VariableProperties}
    (hv : (name, v) ∈ a.described) :
    (∀ subject predicate object,
      (∃ optional, ⟨subject, predicate, object, optional⟩ ∈ a.dependencies) ↔
        TriplePattern.plain (.var subject) (.iri predicate) (.var object) ∈ q.pattern.triples) ∧
    (v.functional = false ↔
      (∃ route, Route a.dependencies anchor route name) ∧
        ∀ route, Route a.dependencies anchor route name →
          ∃ c ∈ route, c.isForward = true ∧ c.link.predicate ∈ hints.oneToMany) := by
  obtain ⟨visits, hmade⟩ := exists_madeOf h
  have hfunctional := (propertiesOf_ok (hmade.described name v hv).2).2.1
  rw [hmade.dependencies]
  refine ⟨fun subject predicate object => Dependency.mem_dependencies_iff hmade.walk, ?_⟩
  have hconnected : Reach.Path (Dependency.edges (Visit.dependencies visits)) anchor name ↔
      ∃ route, Route (Visit.dependencies visits) anchor route name ∧ ∀ _ ∈ route, True :=
    Route.path_iff Route.step_edges_iff
  have hsingle : Reach.Path
        (Dependency.functionalEdges hints.isOneToMany (Visit.dependencies visits)) anchor name ↔
      ∃ route, Route (Visit.dependencies visits) anchor route name ∧
        ∀ c ∈ route, ¬ c.Spreads hints :=
    Route.path_iff Route.step_functionalEdges_iff
  rw [hfunctional, isFunctional, Bool.or_eq_false_iff, Bool.not_eq_false',
    ← Bool.not_eq_true, List.contains_iff_mem, List.contains_iff_mem, Reach.mem_closure,
    Reach.mem_closure, hconnected, hsingle, and_comm]
  refine and_congr (by simp) ?_
  simp only [not_exists, not_and, Classical.not_forall, not_not, exists_prop]
  rfl

/-- A note and the entries under which its tags are filed. -/
def filedTags : SelectQuery :=
  .ofPattern ["note", "entry"] (.group [
    .basic [.plain (.var "note") (.iri "e:tag") (.var "tag")],
    .optional (.basic [.plain (.var "note") (.iri "e:mark") (.var "tag"),
      .plain (.var "entry") (.iri "e:files") (.var "tag")])])

/-- Seen from the note, there may be many entries. -/
def filedFromNote : Analysis where
  anchor := "note"
  described := [("entry", ⟨false, true, "Entity", true, none⟩)]
  dependencies := [⟨"note", "e:tag", "tag", false⟩, ⟨"note", "e:mark", "tag", true⟩,
    ⟨"entry", "e:files", "tag", true⟩]
  ambiguous := []

/-- Both of the links from the note to its tags may lead to many, and they are the only way to the
entries; the link between these and the tags is crossed against its direction. -/
theorem functional_eq_false_iff_entry :
    ∃ a v, derive filedTags "note" ⟨["e:tag", "e:mark", "e:files"], [], []⟩ = .ok a ∧
      ("entry", v) ∈ a.described ∧ v.functional = false ∧
      (∃ route, Route a.dependencies "note" route "entry") ∧
      ∀ route, Route a.dependencies "note" route "entry" →
        ∃ c ∈ route, c.isForward = true ∧ c.link.predicate ∈ ["e:tag", "e:mark", "e:files"] := by
  have hderive : derive filedTags "note" ⟨["e:tag", "e:mark", "e:files"], [], []⟩ =
      .ok filedFromNote := rfl
  have hentry : ("entry", _) ∈ filedFromNote.described := List.mem_cons_self
  obtain ⟨-, hiff⟩ := functional_eq_false_iff hderive hentry
  exact ⟨_, _, hderive, hentry, rfl, hiff.mp rfl⟩

end Analysis

end EntityMapping
