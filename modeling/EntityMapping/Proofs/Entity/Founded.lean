import EntityMapping.Entity.Creation
import EntityMapping.Proofs.Change.Founded
import EntityMapping.Proofs.Entity.Mutation

/-!
Entities of which every change can be written.

A value that a mutation writes has passed the check, or it is a literal.  What else a change mentions
comes from the entity: its IRI, the predicates of its type, and the terms that it has already.
-/

namespace EntityMapping

/-! ### Values -/

namespace Property

variable {p : Property} {v : Value} {t : Term}

theorem toTerm_bindable (h : p.toTerm v = .ok t) : t.Bindable := by
  have hchecked : ∀ {s : String}, checkIri s = .ok t → t.Bindable := by
    intro s hs
    obtain ⟨rfl, haccepted⟩ := checkIri_ok hs
    exact haccepted
  unfold toTerm at h
  split at h
  · unfold referenceTerm at h
    split at h
    · exact hchecked h
    · split at h
      · exact hchecked h
      · contradiction
  · unfold literalTerm at h
    split at h
    · exact Except.ok.inj h ▸ trivial
    · contradiction
    · contradiction
    · exact Except.ok.inj h ▸ trivial

/-- What a value is written as can be bound, whatever it is written beside. -/
theorem termFor_bindable {stored : List Term} (h : p.termFor v stored = .ok t) : t.Bindable := by
  unfold termFor at h
  split at h
  · exact toTerm_bindable h
  · exact Except.ok.inj h ▸ trivial
  · split at h
    · exact Except.ok.inj h ▸ trivial
    · dsimp only at h
      split at h
      · exact Except.ok.inj h ▸ trivial
      · exact toTerm_bindable h

end Property

/-! ### States -/

/-- A state of terms that can be bound. -/
def EntityState.Bindable (s : EntityState) : Prop :=
  ∀ entry ∈ s, ∀ t ∈ entry.2.terms, t.Bindable

namespace EntityState

variable {s : EntityState} {name : String}

theorem Bindable.terms (h : s.Bindable) : ∀ t ∈ s.terms name, t.Bindable := by
  intro t ht
  unfold EntityState.terms property at ht
  cases hlookup : s.lookup name with
  | none =>
      rw [hlookup] at ht
      contradiction
  | some state =>
      rw [hlookup] at ht
      obtain ⟨before, behind, rfl, -⟩ := List.lookup_eq_some_iff.mp hlookup
      exact h (name, state) (List.mem_append_right _ List.mem_cons_self) t ht

theorem Bindable.set (h : s.Bindable) {state : PropertyState}
    (hstate : ∀ t ∈ state.terms, t.Bindable) : (s.set name state).Bindable := by
  intro entry hentry
  obtain ⟨⟨other, was⟩, hwas, rfl⟩ := List.mem_map.mp hentry
  by_cases hother : other = name
  · simpa [hother] using hstate
  · simpa [hother] using h (other, was) hwas

theorem Bindable.insert (h : s.Bindable) {t : Term} (ht : t.Bindable) :
    (s.insert name t).Bindable := by
  refine h.set fun u hu => ?_
  rcases PropertyState.mem_terms_insert hu with rfl | hu
  · exact ht
  · exact h.terms u hu

theorem bindable_none (properties : List Property) : (EntityState.none properties).Bindable := by
  intro entry hentry t ht
  obtain ⟨p, -, rfl⟩ := List.mem_map.mp hentry
  rw [PropertyState.terms_none] at ht
  contradiction

end EntityState

/-! ### What is read from a store -/

theorem Property.mem_valuesIn {p : Property} {rows : List Row} {t : Term}
    (h : t ∈ p.valuesIn rows) : ∃ row ∈ rows, row.term? p.name = some t := by
  unfold valuesIn at h
  suffices hfold : ∀ (found seen : List Term),
      t ∈ found.foldl (fun seen t => t.insertInto seen) seen → t ∈ seen ∨ t ∈ found by
    exact List.mem_filterMap.mp ((hfold _ [] h).resolve_left List.not_mem_nil)
  intro found
  induction found with
  | nil => exact fun seen h => Or.inl h
  | cons first found ih =>
      intro seen h
      rcases ih _ h with h | h
      · rcases Term.mem_insertInto h with rfl | h
        · exact Or.inr List.mem_cons_self
        · exact Or.inl h
      · exact Or.inr (List.mem_cons_of_mem _ h)

namespace EntityType

/-- The predicates of a type are accepted as IRIs. -/
def Accepted (t : EntityType) : Prop :=
  ∀ p ∈ t.properties, ∀ predicate ∈ p.predicate, AcceptedIri predicate

instance (t : EntityType) : Decidable t.Accepted :=
  inferInstanceAs (Decidable (∀ p ∈ t.properties, ∀ predicate ∈ p.predicate, AcceptedIri predicate))

/-- Rows from which a type reads accepted IRIs for its entities and terms that can be bound for their
properties. -/
structure ReadsBindable (t : EntityType) (rows : List Row) : Prop where
  accepted : t.Accepted
  subjects : ∀ row ∈ rows, ∀ uri ∈ t.subjectOf? row, AcceptedIri uri
  terms : ∀ row ∈ rows, ∀ p ∈ t.properties, ∀ v ∈ row.term? p.name, v.Bindable

theorem ReadsBindable.stateIn {t : EntityType} {rows some : List Row} (h : t.ReadsBindable rows)
    (hsome : some ⊆ rows) : (t.stateIn some).Bindable := by
  intro entry hentry v hv
  obtain ⟨p, hp, rfl⟩ := List.mem_map.mp hentry
  have hread : v ∈ p.valuesIn some := by
    simp only [Property.stateIn] at hv
    split at hv
    · exact List.mem_of_mem_head? (Option.mem_toList.mp hv)
    · exact hv
  obtain ⟨row, hrow, hterm⟩ := Property.mem_valuesIn hread
  exact h.terms row (hsome hrow) p hp v hterm

end EntityType

/-! ### Entities -/

namespace Entity

variable {e after : Entity} {name predicate : String} {p : Property} {c : Change}
  {bound : Term → Prop}

/-- An entity with accepted IRIs and with terms that can be bound, now and when it was committed. -/
structure Founded (e : Entity) : Prop where
  uri : AcceptedIri e.uri
  accepted : e.type.Accepted
  values : e.values.Bindable
  committed : e.committed.Bindable

theorem Founded.accepted_of_writable (h : e.Founded) (hw : e.Writable name p predicate) :
    AcceptedIri predicate :=
  h.accepted p (EntityType.property_ok hw.property).1 predicate hw.predicate

theorem Founded.old (h : e.Founded) {t : Term} (ht : (e.values.terms name).head? = some t) :
    t.Bindable :=
  h.values.terms t (List.mem_of_mem_head? ht)

theorem Founded.holding (h : e.Founded) {state : PropertyState}
    (hstate : ∀ t ∈ state.terms, t.Bindable) : (e.holding name state).Founded :=
  ⟨h.uri, h.accepted, h.values.set hstate, h.committed⟩

theorem Founded.revert (h : e.Founded) : e.revert.Founded :=
  ⟨h.uri, h.accepted, h.committed, h.committed⟩

theorem Founded.markCommitted (h : e.Founded) {state : EntityState} (hstate : state.Bindable) :
    (e.markCommitted state).Founded :=
  ⟨h.uri, h.accepted, h.values, hstate⟩

theorem Founded.refresh (h : e.Founded) {state : EntityState} (hstate : state.Bindable) :
    (e.refresh state).Founded :=
  ⟨h.uri, h.accepted, hstate, hstate⟩

/-! ### Mutations -/

theorem bindable_of_binds {v : Value} {t : Term} (h : e.Binds name v t) : t.Bindable := by
  obtain ⟨p, stored, -, -, hterm⟩ := h
  exact Property.termFor_bindable hterm

/-- What is written can be bound, whatever the entity is. -/
theorem Updates.writes (h : e.Updates bound after c) (hbound : ∀ t, bound t → t.Bindable) :
    c.Writes := by
  cases h with
  | assign hw hone hold hnew => exact hbound _ hnew
  | unset hw hone hold => trivial
  | replace hw hone hold hnew => exact hbound _ hnew
  | add hw hmany ht => exact hbound _ ht
  | remove hw hmany ht => trivial

theorem Updates.founded (h : e.Updates bound after c) (he : e.Founded)
    (hbound : ∀ t, bound t → t.Bindable) : after.Founded ∧ c.Founded := by
  have hsingle : ∀ {t : Term}, bound t → ∀ u ∈ (PropertyState.single (some t)).terms,
      u.Bindable := fun ht u hu => List.mem_singleton.mp hu ▸ hbound _ ht
  cases h with
  | assign hw hone hold hnew =>
      exact ⟨he.holding (hsingle hnew), he.uri, he.accepted_of_writable hw⟩
  | unset hw hone hold =>
      exact ⟨he.holding fun u hu => absurd hu List.not_mem_nil, he.uri, he.accepted_of_writable hw,
        he.old hold⟩
  | replace hw hone hold hnew =>
      exact ⟨he.holding (hsingle hnew), he.uri, he.accepted_of_writable hw, he.old hold⟩
  | add hw hmany ht =>
      refine ⟨he.holding fun u hu => ?_, he.uri, he.accepted_of_writable hw⟩
      rcases Term.mem_insertInto hu with rfl | hu
      · exact hbound _ ht
      · exact he.values.terms u hu
  | remove hw hmany ht =>
      refine ⟨he.holding fun u hu => ?_, he.uri, he.accepted_of_writable hw, hbound _ ht⟩
      exact he.values.terms u (List.mem_of_mem_filter hu)

theorem delete_eq_ok (h : e.delete = .ok (after, c)) :
    after = { e with deleted := true } ∧ c = .delete e.uri := by
  unfold delete at h
  obtain ⟨-, h⟩ := guard_eq_ok.mp h
  obtain ⟨rfl, rfl⟩ := Prod.mk.inj (Except.ok.inj h)
  exact ⟨rfl, rfl⟩

theorem redirect_eq_ok {v : Value} {gone : Bool} (h : e.redirect v gone = .ok (after, c)) :
    after = { e with deleted := true } ∧
      ∃ target, redirectTarget v gone = .ok target ∧ c = .redirect e.uri target := by
  unfold redirect at h
  obtain ⟨-, h⟩ := guard_eq_ok.mp h
  obtain ⟨target, htarget, h⟩ := bind_eq_ok.mp h
  obtain ⟨-, h⟩ := guard_eq_ok.mp h
  obtain ⟨rfl, rfl⟩ := Prod.mk.inj (Except.ok.inj h)
  exact ⟨rfl, target, htarget, rfl⟩

/-- A redirection checks its target where that is a text, but not where it is an entity. -/
theorem redirectTarget_ok {v : Value} {gone : Bool} {target : String}
    (h : redirectTarget v gone = .ok target) : AcceptedIri target ∨ ∃ id, v = .entity id target := by
  unfold redirectTarget at h
  split at h
  · next id uri =>
      split at h
      · contradiction
      · exact Or.inr ⟨id, Except.ok.inj h ▸ rfl⟩
  · cases hcheck : checkIri v.text with
    | error e =>
        rw [hcheck] at h
        contradiction
    | ok t =>
        rw [hcheck] at h
        obtain ⟨rfl, haccepted⟩ := checkIri_ok hcheck
        exact Or.inl (Except.ok.inj h ▸ haccepted)

end Entity

/-! ### Creations -/

namespace EntityType

variable {t : EntityType} {uri : String} {vs : InitialValues}

theorem bindable_of_bindMandatory {names : List String} {template after : Template}
    {state final : EntityState} (h : t.bindMandatory vs names template state = .ok (after, final))
    (hstate : state.Bindable) : final.Bindable := by
  induction names generalizing template state with
  | nil =>
      obtain ⟨rfl, rfl⟩ := Prod.mk.inj (Except.ok.inj h)
      exact hstate
  | cons name names ih =>
      unfold bindMandatory at h
      split at h
      · contradiction
      · obtain ⟨p, -, h⟩ := bind_eq_ok.mp h
        obtain ⟨term, hterm, h⟩ := bind_eq_ok.mp h
        obtain ⟨bound, -, h⟩ := bind_eq_ok.mp h
        exact ih h (hstate.insert (Property.toTerm_bindable hterm))

/-- A property of the first steps of a draft is one of the whole draft if each step keeps it. -/
theorem foldlM_keeps {α : Type} {step : Draft → α → Except MappingError Draft} {as : List α}
    (hstep : ∀ {d a after}, step d a = .ok after → d.state.Bindable → after.state.Bindable)
    {d after : Draft} (h : as.foldlM step d = .ok after) (hd : d.state.Bindable) :
    after.state.Bindable := by
  induction as generalizing d with
  | nil =>
      rw [List.foldlM_nil, pure_eq_ok] at h
      exact h ▸ hd
  | cons a as ih =>
      rw [List.foldlM_cons] at h
      obtain ⟨next, hnext, h⟩ := bind_eq_ok.mp h
      exact ih h (hstep hnext hd)

theorem bindable_of_draftValue {p : Property} {d after : Draft} {v : Value}
    (h : t.draftValue uri p d v = .ok after) (hd : d.state.Bindable) : after.state.Bindable := by
  obtain ⟨term, hterm, h⟩ := bind_eq_ok.mp h
  obtain ⟨text, -, h⟩ := bind_eq_ok.mp h
  obtain rfl := pure_eq_ok.mp h
  exact hd.insert (Property.toTerm_bindable hterm)

theorem bindable_of_draftProperty {p : Property} {d after : Draft}
    (h : t.draftProperty uri vs d p = .ok after) (hd : d.state.Bindable) :
    after.state.Bindable := by
  unfold draftProperty at h
  split at h
  · exact pure_eq_ok.mp h ▸ hd
  · obtain ⟨items, -, h⟩ := bind_eq_ok.mp h
    exact foldlM_keeps bindable_of_draftValue h hd

/-- A creation that is not refused has an accepted IRI, and terms that can be bound. -/
theorem founded_of_draft {d : Draft} (h : t.draft uri vs = .ok d) (haccepted : t.Accepted) :
    (Entity.created t uri d.state).Founded := by
  obtain ⟨creation, -, h⟩ := bind_eq_ok.mp h
  obtain ⟨template, htemplate, h⟩ := bind_eq_ok.mp h
  obtain ⟨⟨filled, state⟩, hfilled, h⟩ := bind_eq_ok.mp h
  have hstate := bindable_of_bindMandatory hfilled (EntityState.bindable_none _)
  have hdrafted : d.state.Bindable := foldlM_keeps bindable_of_draftProperty h hstate
  exact ⟨Template.exists_setIri.mp ⟨_, htemplate⟩, haccepted, hdrafted, hdrafted⟩

end EntityType

end EntityMapping
