import EntityMapping.Proofs.Change.Replay
import EntityMapping.Proofs.Entity.Mutation

/-!
Sound entities: those of which everything can be written.

Writing a value that can be written keeps an entity sound, and the change that says so is that of an
edit that can be written.
-/

namespace EntityMapping.Entity

variable {e after : Entity} {name predicate : String} {p : Property} {c : Change}
  {bound : Term → Prop}

/-- An entity of a type that was made from a selection, with a state that fits the type, and with
IRIs and terms that can be written. -/
structure Sound (e : Entity) : Prop where
  mapped : e.type.Mapped
  fits : e.values.Fits e.type.properties
  uri : ValidIri e.uri
  predicates : ∀ p ∈ e.type.properties, ∀ predicate, p.predicate = some predicate →
    ValidIri predicate
  terms : ∀ p ∈ e.type.properties, p.isWritable = true → ∀ t ∈ e.values.terms p.name, t.Writable

theorem Writable.isWritable (h : e.Writable name p predicate) : p.isWritable = true :=
  Option.isSome_iff_exists.mpr ⟨predicate, h.predicate⟩

theorem Sound.validIri (h : e.Sound) (hw : e.Writable name p predicate) : ValidIri predicate :=
  h.predicates p (EntityType.property_ok hw.property).1 predicate hw.predicate

theorem Sound.writable (h : e.Sound) (hw : e.Writable name p predicate) :
    ∀ t ∈ e.values.terms name, t.Writable := by
  obtain ⟨hp, rfl⟩ := EntityType.property_ok hw.property
  exact h.terms p hp hw.isWritable

/-- The change that writing a value records is that of an edit that can be written. -/
theorem Updates.exists_edit (h : e.Updates bound after c) (hsound : e.Sound)
    (hbound : ∀ t, bound t → t.Writable) : ∃ edit : Edit, edit.Readable ∧ edit.change = c := by
  have huri := hsound.uri
  cases h with
  | @assign name predicate p hw hone hold new hnew =>
      exact ⟨.add e.uri predicate new, ⟨huri, hsound.validIri hw, hbound new hnew⟩, rfl⟩
  | @unset name predicate p hw hone old hold =>
      have hstored := hsound.writable hw old (List.mem_of_mem_head? hold)
      exact ⟨.remove e.uri predicate old, ⟨huri, hsound.validIri hw, hstored⟩, rfl⟩
  | @replace name predicate p hw hone old hold new hnew =>
      have hstored := hsound.writable hw old (List.mem_of_mem_head? hold)
      exact ⟨.replace e.uri predicate old new,
        ⟨huri, hsound.validIri hw, hstored, hbound new hnew⟩, rfl⟩
  | @add name predicate p hw hmany t ht =>
      exact ⟨.add e.uri predicate t, ⟨huri, hsound.validIri hw, hbound t ht⟩, rfl⟩
  | @remove name predicate p hw hmany t ht =>
      exact ⟨.remove e.uri predicate t, ⟨huri, hsound.validIri hw, hbound t ht⟩, rfl⟩

/-- An entity stays sound with a state of one property that fits and can be written. -/
theorem Sound.holding (h : e.Sound) (hw : e.Writable name p predicate) {state : PropertyState}
    (hstate : state.isSingle = p.isFunctional) (hterms : ∀ t ∈ state.terms, t.Writable) :
    (e.holding name state).Sound where
  mapped := h.mapped
  fits := fits_holding h.mapped.regular.names_nodup h.fits hw hstate
  uri := h.uri
  predicates := h.predicates
  terms := by
    intro q hq hwritable t ht
    rw [terms_holding h.fits hw] at ht
    split at ht
    · exact hterms t ht
    · exact h.terms q hq hwritable t ht

theorem Updates.sound (h : e.Updates bound after c) (hsound : e.Sound)
    (hbound : ∀ t, bound t → t.Writable) : after.Sound := by
  cases h with
  | assign hw hone hold hnew =>
      refine hsound.holding hw hone.symm fun t ht => ?_
      exact List.mem_singleton.mp ht ▸ hbound _ hnew
  | unset hw hone hold => exact hsound.holding hw hone.symm fun t ht => absurd ht List.not_mem_nil
  | replace hw hone hold hnew =>
      refine hsound.holding hw hone.symm fun t ht => ?_
      exact List.mem_singleton.mp ht ▸ hbound _ hnew
  | add hw hmany ht =>
      refine hsound.holding hw hmany.symm fun u hu => ?_
      rcases Term.mem_insertInto hu with rfl | hu
      · exact hbound u ht
      · exact hsound.writable hw u hu
  | remove hw hmany ht =>
      refine hsound.holding hw hmany.symm fun u hu => ?_
      exact hsound.writable hw u (List.mem_of_mem_filter hu)

/-- What a creation that can be written makes is sound. -/
theorem sound_created (creation : Creation) (h : creation.Readable) :
    (Entity.created creation.type creation.uri creation.draft.state).Sound := by
  have hbase : MemoryStore.empty.prologue.base = none := rfl
  have hdrafted := EntityType.drafted_of_draft hbase h.writes creation.drafted
  exact ⟨creation.mapped, hdrafted.fits, h.uri, h.predicates,
    fun p hp _ => hdrafted.writable p hp⟩

end EntityMapping.Entity
