import EntityMapping.Proofs.Change.Edit
import EntityMapping.Proofs.Entity.Initial
import EntityMapping.Proofs.Session.Mutation

/-!
What a creation writes is what it shows.

The journal gets one change, and the update of this change adds to every graph the triples of the
state that the new entity has, and no others.
-/

namespace EntityMapping

open Sparql.Lexer (isIriChar)

/-- The fact is one that the entity states: a term of one of its properties, under the predicate of
that property. -/
def Entity.States (e : Entity) (u : Triple) : Prop :=
  ∃ p ∈ e.type.properties, ∃ predicate, p.predicate = some predicate ∧
    ∃ o ∈ e.values.terms p.name, u.same ⟨.iri e.uri, .iri predicate, o⟩ = true

theorem Entity.states_iff {e : Entity} {u : Triple} :
    e.States u ↔ (e.type.triplesOf e.uri e.values).any u.same = true := by
  simp only [States, EntityType.any_triplesOf, Term.memberOf_iff, Triple.same_iri_iff]
  refine exists_congr fun p => and_congr_right fun _ => exists_congr fun predicate =>
    and_congr_right fun _ => ⟨?_, ?_⟩
  · rintro ⟨o, ho, hsubject, hpredicate, hsame⟩
    exact ⟨hsubject, hpredicate, o, ho, hsame⟩
  · rintro ⟨hsubject, hpredicate, o, ho, hsame⟩
    exact ⟨o, ho, hsubject, hpredicate, hsame⟩

/-- What an update makes of every store: its graph holds more facts, and none is lost. -/
def Change.Adds (text : String) (facts : Triple → Prop) : Prop :=
  ∀ m : MemoryStore, ∃ after, m.apply text = .ok after ∧
    ∀ u, after.graph.holds u = true ↔ m.graph.holds u = true ∨ facts u

namespace EntityType

theorem acceptedIri_of_draft {t : EntityType} {uri : String} {vs : InitialValues} {d : Draft}
    (hok : t.draft uri vs = .ok d) : AcceptedIri uri := by
  obtain ⟨text, -, hok⟩ := bind_eq_ok.mp hok
  obtain ⟨template, htemplate, -⟩ := bind_eq_ok.mp hok
  exact Template.exists_setIri.mp ⟨template, htemplate⟩

end EntityType

namespace Session

variable {σ : Type} {s s' : Session σ} {t : EntityType} {vs : InitialValues} {id : EntityId}

/-- A creation that is not refused puts one change into the journal.  Its update adds to every graph
the facts that the new entity states and nothing else, and these are what the creation was given. -/
theorem create_writes_shown (ht : t.Mapped) (hanchor : IsSlot t.anchor)
    (hnames : ∀ p ∈ t.properties, IsSlot p.name)
    (hpredicates : ∀ p ∈ t.properties, ∀ predicate, p.predicate = some predicate →
      ∀ c ∈ predicate.toList, isIriChar c = true)
    (huri : ∀ c ∈ (s.freshIri t).toList, isIriChar c = true)
    (hterms : ∀ p ∈ t.properties, ∀ v o, vs.Supplies p v → p.toTerm v = .ok o → o.Writable)
    (h : s.create t vs = (.ok id, s')) :
    ∃ e c text, s'.entity? id = some e ∧ e.type = t ∧ e.uri = s.freshIri t ∧
      s'.journal.changes = s.journal.changes ++ [c] ∧ c.update = .ok text ∧
      Change.Adds text e.States ∧ t.Shows vs e.values := by
  obtain ⟨cause, suffixes, hrefused⟩ | ⟨d, hdraft, hcreated⟩ := s.create_cases t vs
  · rw [hrefused] at h
    cases h
  rw [hcreated] at h
  cases h
  have hwrites : t.Writes (s.freshIri t) vs :=
    ⟨ht.regular, hanchor, hnames, ⟨EntityType.acceptedIri_of_draft hdraft, huri⟩, hpredicates,
      hterms⟩
  refine ⟨.created t (s.freshIri t) d.state, .create (s.freshIri t)
    (Change.separator.intercalate d.updates), _, ?_, rfl, rfl, ?_, rfl, ?_,
    EntityType.shows_of_draft ht.regular hdraft⟩
  · rw [keepCreated, entity?_record, entity?_addEntity, if_pos rfl]
  · rw [keepCreated, record_changes]
    rfl
  · intro m
    have hbase : m.prologue.base = none := rfl
    have hperforms := (EntityType.drafted_of_draft hbase hwrites hdraft).performs
    obtain ⟨after, hafter, hsame, -⟩ := m.apply_of_performs hperforms
    refine ⟨after, hafter, fun u => ?_⟩
    rw [hsame u, Graph.holds_insertAll, Bool.or_eq_true, Entity.states_iff]
    rfl

/-- A session over an empty store, in which nothing has happened. -/
def blankSession : Session MemoryStore :=
  .ofStore .empty (.ofSequence fun _ => "-1") 8

open MemoryStore (noteType noteValues readable_noteCreation) in
/-- A note with a title and a tag. -/
theorem create_writes_shown_note :
    (blankSession.create noteType noteValues).1 = .ok 0 ∧
    ∃ e c text, (blankSession.create noteType noteValues).2.entity? 0 = some e ∧
      e.type = noteType ∧ e.uri = "http://e/note-1" ∧
      (blankSession.create noteType noteValues).2.journal.changes =
        blankSession.journal.changes ++ [c] ∧
      c.update = .ok text ∧ Change.Adds text e.States ∧ noteType.Shows noteValues e.values := by
  have hmade : (blankSession.create noteType noteValues).1 = .ok 0 := rfl
  refine ⟨hmade, ?_⟩
  exact create_writes_shown MemoryStore.mapped_noteType readable_noteCreation.anchor
    readable_noteCreation.names
    (fun p hp predicate hpredicate =>
      (readable_noteCreation.predicates p hp predicate hpredicate).2)
    (List.all_eq_true.mp rfl) readable_noteCreation.terms (Prod.ext hmade rfl)

end Session

end EntityMapping
