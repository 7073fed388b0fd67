import EntityMapping.Proofs.Entity.Sound
import EntityMapping.Proofs.Session.Commit
import EntityMapping.Proofs.Session.Mutation

/-!
The pending view: the store with the pending changes shows what the entities have in memory.

Every mutation changes one place of the view, an IRI with a predicate, in the way in which it
changes the entity.  At places that belong to no entity the view is the store.
-/

namespace EntityMapping

namespace Session

/-- A live entity with a property that can be written, and the predicate to write it with. -/
structure Owns {σ : Type} (s : Session σ) (id : EntityId) (e : Entity) (p : Property)
    (predicate : String) : Prop where
  entity : s.entity? id = some e
  alive : e.deleted = false
  property : p ∈ e.type.properties
  predicate : p.predicate = some predicate

/-- No place belongs to two properties of live entities. -/
def Separate {σ : Type} (s : Session σ) : Prop :=
  ∀ ⦃id other e e' p p' predicate⦄, s.Owns id e p predicate → s.Owns other e' p' predicate →
    e.uri = e'.uri → id = other ∧ p = p'

/-- All live entities are sound. -/
def WellFormed {σ : Type} (s : Session σ) : Prop :=
  ∀ id e, s.entity? id = some e → e.deleted = false → e.Sound

/-- A graph that has the terms of live entities at their places, and what the store has at all
others. -/
structure Shown (s : Session MemoryStore) (g : Graph) : Prop where
  owned : ∀ {id e p predicate}, s.Owns id e p predicate →
    ∀ o, g.holds (.stating e.uri predicate o) = o.memberOf (e.values.terms p.name)
  others : ∀ {uri predicate}, (∀ {id e p}, s.Owns id e p predicate → e.uri ≠ uri) →
    ∀ o, g.holds (.stating uri predicate o) = s.store.graph.holds (.stating uri predicate o)

/-- What belongs to live entities in one session still does in another. -/
def Grows {σ : Type} (s s' : Session σ) : Prop :=
  ∀ ⦃id e p predicate⦄, s.Owns id e p predicate →
    ∃ e', s'.Owns id e' p predicate ∧ e'.uri = e.uri

theorem Grows.trans {σ : Type} {s s' s'' : Session σ} (h : s.Grows s') (hmore : s'.Grows s'') :
    s.Grows s'' := by
  intro id e p predicate howns
  obtain ⟨e', howns', huri⟩ := h howns
  obtain ⟨e'', howns'', huri'⟩ := hmore howns'
  exact ⟨e'', howns'', huri'.trans huri⟩

theorem Separate.of_grows {σ : Type} {s s' : Session σ} (h : s'.Separate) (hgrows : s.Grows s') :
    s.Separate := by
  intro id other e e' p p' predicate howns hother huri
  obtain ⟨after, hafter, hsame⟩ := hgrows howns
  obtain ⟨after', hafter', hsame'⟩ := hgrows hother
  exact h hafter hafter' (hsame.trans (huri.trans hsame'.symm))

/-- What a view depends on, of an entity. -/
def visible (e : Entity) : EntityType × String × EntityState × Bool :=
  (e.type, e.uri, e.values, e.deleted)

theorem visible_eq_iff {e e' : Entity} : visible e' = visible e ↔
    e'.type = e.type ∧ e'.uri = e.uri ∧ e'.values = e.values ∧ e'.deleted = e.deleted := by
  simp only [visible, Prod.mk.injEq]

/-- An entity that looks like a sound one is sound. -/
theorem sound_of_visible {e e' : Entity} (h : visible e' = visible e) (hsound : e.Sound) :
    e'.Sound := by
  obtain ⟨htype, huri, hvalues, -⟩ := visible_eq_iff.mp h
  obtain ⟨hmapped, hfits, hvalid, hpredicates, hterms⟩ := hsound
  rw [← htype] at hmapped hfits hpredicates hterms
  rw [← hvalues] at hfits hterms
  exact ⟨hmapped, hfits, huri ▸ hvalid, hpredicates, hterms⟩

/-- Two sessions over one store whose entities look alike. -/
structure Alike (s s' : Session MemoryStore) : Prop where
  entity : ∀ id, (s.entity? id).map visible = (s'.entity? id).map visible
  store : s.store = s'.store

theorem Alike.refl (s : Session MemoryStore) : s.Alike s :=
  ⟨fun _ => rfl, rfl⟩

theorem Alike.trans {s s' s'' : Session MemoryStore} (h : s.Alike s') (hmore : s'.Alike s'') :
    s.Alike s'' :=
  ⟨fun id => (h.entity id).trans (hmore.entity id), h.store.trans hmore.store⟩

theorem Alike.symm {s s' : Session MemoryStore} (h : s.Alike s') : s'.Alike s :=
  ⟨fun id => (h.entity id).symm, h.store.symm⟩

theorem Alike.exists_entity {s s' : Session MemoryStore} (h : s.Alike s') {id : EntityId}
    {e : Entity} (he : s.entity? id = some e) :
    ∃ e', s'.entity? id = some e' ∧ e'.type = e.type ∧ e'.uri = e.uri ∧ e'.values = e.values ∧
      e'.deleted = e.deleted := by
  have hentity := h.entity id
  rw [he, Option.map_some] at hentity
  obtain ⟨e', he', hvisible⟩ := Option.map_eq_some_iff.mp hentity.symm
  exact ⟨e', he', visible_eq_iff.mp hvisible⟩

theorem owns_congr {s s' : Session MemoryStore} {id : EntityId} {e : Entity} {p : Property}
    {predicate : String} (h : s'.entity? id = s.entity? id) :
    s'.Owns id e p predicate ↔ s.Owns id e p predicate :=
  ⟨fun howns => ⟨h ▸ howns.entity, howns.alive, howns.property, howns.predicate⟩,
    fun howns => ⟨h.trans howns.entity, howns.alive, howns.property, howns.predicate⟩⟩

theorem Alike.exists_owns {s s' : Session MemoryStore} (h : s.Alike s') {id : EntityId}
    {e : Entity} {p : Property} {predicate : String} (howns : s.Owns id e p predicate) :
    ∃ e', s'.Owns id e' p predicate ∧ e'.uri = e.uri ∧ e'.values = e.values := by
  obtain ⟨e', he', htype, huri, hvalues, hdeleted⟩ := h.exists_entity howns.entity
  exact ⟨e', ⟨he', hdeleted.trans howns.alive, htype ▸ howns.property, howns.predicate⟩, huri,
    hvalues⟩

theorem Alike.grows {s s' : Session MemoryStore} (h : s.Alike s') : s.Grows s' := by
  intro id e p predicate howns
  obtain ⟨e', howns', huri, -⟩ := h.exists_owns howns
  exact ⟨e', howns', huri⟩

theorem Alike.shown {s s' : Session MemoryStore} (h : s.Alike s') {g : Graph} (hshown : s.Shown g) :
    s'.Shown g := by
  constructor
  · intro id e p predicate howns o
    obtain ⟨e', howns', huri, hvalues⟩ := h.symm.exists_owns howns
    rw [← huri, ← hvalues]
    exact hshown.owned howns' o
  · intro uri predicate hfree o
    rw [← h.store]
    refine hshown.others (fun howns => ?_) o
    obtain ⟨e', howns', huri, -⟩ := h.exists_owns howns
    exact huri ▸ hfree howns'

theorem Alike.wellFormed {s s' : Session MemoryStore} (h : s.Alike s') (hwell : s.WellFormed) :
    s'.WellFormed := by
  intro id e he halive
  obtain ⟨e', he', hvisible⟩ := h.symm.exists_entity he
  refine sound_of_visible ?_ (hwell id e' he' (hvisible.2.2.2.trans halive))
  exact (visible_eq_iff.mpr hvisible).symm

theorem Shown.congr {s : Session MemoryStore} {g g' : Graph} (h : s.Shown g) (hsame : g'.Same g) :
    s.Shown g' :=
  ⟨fun howns o => (hsame _).trans (h.owned howns o),
    fun hfree o => (hsame _).trans (h.others hfree o)⟩

/-! ### Writing a value -/

section Updating

variable {s : Session MemoryStore} {g g' : Graph} {id : EntityId} {e after : Entity}
  {name predicate : String} {p : Property} {state : PropertyState} {c : Change}
  {bound : Term → Prop}

theorem entity?_changed (he : s.entity? id = some e) (other : EntityId) :
    ((s.setEntity id after).record id c).entity? other =
      if other = id then some after else s.entity? other := by
  rw [entity?_record, entity?_setEntity s he]

/-- What belongs to an entity does so, too, when the entity was changed. -/
theorem owns_changed_self (he : s.entity? id = some e) (htype : after.type = e.type)
    (hdeleted : after.deleted = e.deleted) {found : Entity} :
    ((s.setEntity id after).record id c).Owns id found p predicate ↔
      found = after ∧ s.Owns id e p predicate := by
  constructor
  · intro h
    have hfound := h.entity
    rw [entity?_changed he, if_pos rfl] at hfound
    obtain rfl := Option.some.inj hfound
    exact ⟨rfl, he, hdeleted ▸ h.alive, htype ▸ h.property, h.predicate⟩
  · rintro ⟨rfl, h⟩
    refine ⟨?_, hdeleted.trans h.alive, htype ▸ h.property, h.predicate⟩
    rw [entity?_changed he, if_pos rfl]

theorem owns_changed_other (he : s.entity? id = some e) {other : EntityId} (hother : other ≠ id)
    {found : Entity} :
    ((s.setEntity id after).record id c).Owns other found p predicate ↔
      s.Owns other found p predicate :=
  owns_congr ((entity?_changed he other).trans (if_neg hother))

theorem grows_changed (he : s.entity? id = some e) (htype : after.type = e.type)
    (huri : after.uri = e.uri) (hdeleted : after.deleted = e.deleted) :
    s.Grows ((s.setEntity id after).record id c) := by
  intro other found q predicate hfound
  by_cases hother : other = id
  · subst hother
    obtain rfl := Option.some.inj (he.symm.trans hfound.entity)
    exact ⟨after, (owns_changed_self he htype hdeleted).mpr ⟨rfl, hfound⟩, huri⟩
  · exact ⟨found, (owns_changed_other he hother).mpr hfound, rfl⟩

theorem owns_of_writable (he : s.entity? id = some e) (hw : e.Writable name p predicate) :
    s.Owns id e p predicate :=
  ⟨he, hw.alive, (EntityType.property_ok hw.property).1, hw.predicate⟩

/-- What belongs to another entity, or to another property, is at another place. -/
theorem Separate.elsewhere (h : s.Separate) (howns : s.Owns id e p predicate) {other : EntityId}
    {found : Entity} {q : Property} {predicate' : String}
    (hfound : s.Owns other found q predicate') (hne : other ≠ id ∨ q ≠ p) :
    found.uri ≠ e.uri ∨ predicate' ≠ predicate := by
  by_contra hboth
  rw [not_or, not_not, not_not] at hboth
  obtain ⟨huri, rfl⟩ := hboth
  obtain ⟨rfl, rfl⟩ := h hfound howns huri
  exact hne.elim (fun hid => hid rfl) fun hp => hp rfl

/-- A change at the place of one property shows the entity with the new state of the property. -/
theorem Shown.holding (h : s.Shown g) (hwell : s.WellFormed) (hseparate : s.Separate)
    (he : s.entity? id = some e) (hw : e.Writable name p predicate)
    (hhere : ∀ o, g'.holds (.stating e.uri predicate o) = o.memberOf state.terms)
    (helse : g'.SameElsewhere g e.uri predicate) :
    ((s.setEntity id (e.holding name state)).record id c).Shown g' := by
  have hsound := hwell id e he hw.alive
  obtain ⟨hp, hname⟩ := EntityType.property_ok hw.property
  have howns := owns_of_writable he hw
  have htype : (e.holding name state).type = e.type := rfl
  have hdeleted : (e.holding name state).deleted = e.deleted := rfl
  constructor
  · intro other found q predicate' hfound o
    by_cases hother : other = id
    · subst hother
      obtain ⟨rfl, hq⟩ := (owns_changed_self he htype hdeleted).mp hfound
      rw [Entity.terms_holding hsound.fits hw]
      by_cases hsame : q = p
      · subst hsame
        obtain rfl := Option.some.inj (hq.predicate.symm.trans hw.predicate)
        rw [if_pos hname]
        exact hhere o
      · have hnames := hsound.mapped.regular.names_nodup
        have hdiffer : q.name ≠ name := fun heq =>
          hsame (List.inj_on_of_nodup_map hnames hq.property hp (heq.trans hname.symm))
        rw [if_neg hdiffer]
        exact (helse _ _ (hseparate.elsewhere howns hq (Or.inr hsame)) o).trans (h.owned hq o)
    · have hkept := (owns_changed_other he hother).mp hfound
      exact (helse _ _ (hseparate.elsewhere howns hkept (Or.inl hother)) o).trans (h.owned hkept o)
  · intro uri predicate' hfree o
    have hkept : ∀ {other found q}, s.Owns other found q predicate' → found.uri ≠ uri := by
      intro other found q hfound
      obtain ⟨found', hfound', huri⟩ := grows_changed (c := c) he htype rfl hdeleted hfound
      exact huri ▸ hfree hfound'
    have hne : uri ≠ e.uri ∨ predicate' ≠ predicate := by
      by_contra hboth
      rw [not_or, not_not, not_not] at hboth
      obtain ⟨rfl, rfl⟩ := hboth
      exact hkept howns rfl
    rw [record_store]
    exact (helse uri predicate' hne o).trans (h.others hkept o)

/-- A property of a single value that has one has no other. -/
theorem terms_of_head? (hfits : e.values.Fits e.type.properties) (hw : e.Writable name p predicate)
    (hone : p.isFunctional = true) {old : Term}
    (hold : (e.values.terms name).head? = some old) : e.values.terms name = [old] := by
  obtain ⟨hp, rfl⟩ := EntityType.property_ok hw.property
  have hshape := hfits.shape p hp
  rw [EntityState.terms] at hold ⊢
  cases hstate : e.values.property p.name with
  | several values =>
      rw [hstate, hone] at hshape
      contradiction
  | single value =>
      rw [hstate] at hold
      cases value with
      | none => contradiction
      | some found => exact congrArg (fun t => [t]) (Option.some.inj hold)

/-- Writing a value changes the view in the way in which it changes the entity. -/
theorem Shown.updated (h : s.Shown g) (hwell : s.WellFormed) (hseparate : s.Separate)
    (he : s.entity? id = some e) (hafter : e.Updates bound after c) {edit : Edit}
    (hedit : edit.change = c) :
    ((s.setEntity id after).record id c).Shown (edit.effect g) := by
  have hhere : ∀ {name predicate p}, e.Writable name p predicate →
      ∀ o, g.holds (.stating e.uri predicate o) = o.memberOf (e.values.terms name) := by
    intro name predicate p hw o
    obtain ⟨hp, rfl⟩ := EntityType.property_ok hw.property
    exact h.owned ⟨he, hw.alive, hp, hw.predicate⟩ o
  have hfits := fun alive => (hwell id e he alive).fits
  cases hafter with
  | @assign name predicate p hw hone hold new =>
      obtain rfl := Edit.eq_add_of_change hedit
      obtain ⟨hplace, helse⟩ := Edit.exchanges_add e.uri predicate new g fun o =>
        List.head?_eq_none_iff.mp hold ▸ hhere hw o
      exact h.holding hwell hseparate he hw hplace helse
  | @unset name predicate p hw hone old hold =>
      obtain rfl := Edit.eq_remove_of_change hedit
      refine h.holding hwell hseparate he hw (fun o => ?_) (Graph.erase_elsewhere g _ _ _)
      refine (Graph.holds_erase_here g _ _ old o).trans ?_
      rw [hhere hw, terms_of_head? (hfits hw.alive) hw hone hold, Term.same_comm old]
      simp [Term.memberOf, PropertyState.terms]
  | @replace name predicate p hw hone old hold new =>
      obtain rfl := Edit.eq_replace_of_change hedit
      obtain ⟨hplace, helse⟩ := Edit.exchanges_replace e.uri predicate old new g fun o =>
        terms_of_head? (hfits hw.alive) hw hone hold ▸ hhere hw o
      exact h.holding hwell hseparate he hw hplace helse
  | @add name predicate p hw hmany t =>
      obtain rfl := Edit.eq_add_of_change hedit
      refine h.holding hwell hseparate he hw (fun o => ?_) (Graph.insert_elsewhere g _ _ _)
      refine (Graph.holds_insert_here g _ _ t o).trans ?_
      rw [hhere hw]
      exact (Term.memberOf_insertInto t _ o).symm
  | @remove name predicate p hw hmany t =>
      obtain rfl := Edit.eq_remove_of_change hedit
      refine h.holding hwell hseparate he hw (fun o => ?_) (Graph.erase_elsewhere g _ _ _)
      refine (Graph.holds_erase_here g _ _ t o).trans ?_
      rw [hhere hw]
      exact (Term.memberOf_eraseFrom t _ o).symm

theorem WellFormed.changed (h : s.WellFormed) (he : s.entity? id = some e)
    (hafter : e.Updates bound after c) (hbound : ∀ t, bound t → t.Writable) :
    ((s.setEntity id after).record id c).WellFormed := by
  intro other found hfound halive
  rw [entity?_changed he] at hfound
  split at hfound
  · obtain rfl := Option.some.inj hfound
    obtain ⟨hlive, -⟩ := hafter.keeps
    exact hafter.sound (h id e he hlive) hbound
  · exact h other found hfound halive

end Updating

/-! ### Creating an entity -/

section Creating

variable {s : Session MemoryStore} {g : Graph} {t : EntityType} {values : InitialValues}
  {d : Draft} {id : EntityId} {e : Entity} {p : Property} {predicate : String}

/-- The session that a creation leaves. -/
def afterCreation (s : Session MemoryStore) (t : EntityType) (d : Draft) : Session MemoryStore :=
  ({ s with suffixes := s.suffixes.next.2 }.keepCreated t (s.freshIri t) d).2

theorem entity?_afterCreation (s : Session MemoryStore) (t : EntityType) (d : Draft)
    (id : EntityId) : (s.afterCreation t d).entity? id =
      if id = s.entities.length then some (.created t (s.freshIri t) d.state)
      else s.entity? id := by
  unfold afterCreation keepCreated
  rw [entity?_record, entity?_addEntity]
  rfl

theorem owns_afterCreation_new : (s.afterCreation t d).Owns s.entities.length e p predicate ↔
    e = .created t (s.freshIri t) d.state ∧ p ∈ t.properties ∧ p.predicate = some predicate := by
  constructor
  · intro h
    have he := h.entity
    rw [entity?_afterCreation, if_pos rfl] at he
    obtain rfl := Option.some.inj he
    exact ⟨rfl, h.property, h.predicate⟩
  · rintro ⟨rfl, hp, hpredicate⟩
    refine ⟨?_, rfl, hp, hpredicate⟩
    rw [entity?_afterCreation, if_pos rfl]

theorem owns_afterCreation_old (hid : id ≠ s.entities.length) :
    (s.afterCreation t d).Owns id e p predicate ↔ s.Owns id e p predicate := by
  apply owns_congr
  rw [entity?_afterCreation, if_neg hid]

theorem Owns.id_ne (h : s.Owns id e p predicate) : id ≠ s.entities.length := by
  rintro rfl
  have hnone := entity?_eq_none.mpr (Nat.le_refl s.entities.length)
  rw [h.entity] at hnone
  contradiction

theorem grows_afterCreation (s : Session MemoryStore) (t : EntityType) (d : Draft) :
    s.Grows (s.afterCreation t d) := by
  intro id e p predicate h
  exact ⟨e, (owns_afterCreation_old h.id_ne).mpr h, rfl⟩

theorem WellFormed.created (h : s.WellFormed)
    (hsound : (Entity.created t (s.freshIri t) d.state).Sound) :
    (s.afterCreation t d).WellFormed := by
  intro id e he halive
  rw [entity?_afterCreation] at he
  split at he
  · exact Option.some.inj he ▸ hsound
  · exact h id e he halive

theorem holds_fresh {uri : String} (hfresh : ∀ u ∈ g, u.subject ≠ .iri uri) (predicate : String)
    (o : Term) : g.holds (.stating uri predicate o) = false := by
  apply Bool.eq_false_iff.mpr
  intro hholds
  obtain ⟨u, hu, hsame⟩ := Graph.holds_iff.mp hholds
  rw [Triple.same, Bool.and_eq_true, Bool.and_eq_true] at hsame
  exact hfresh u hu (Term.iri_same_iff.mp hsame.1.1)

/-- At places that belong to no property a new entity has no triples. -/
theorem any_triplesOf_free {uri place : String}
    (hfree : ∀ p ∈ t.properties, p.predicate = some predicate → place ≠ uri) (o : Term) :
    (t.triplesOf uri d.state).any (Triple.stating place predicate o).same = false := by
  apply Bool.eq_false_iff.mpr
  intro hany
  obtain ⟨p, hp, other, hother, hsubject, hpredicate, -⟩ := EntityType.any_triplesOf.mp hany
  obtain rfl := Term.iri.inj hpredicate
  exact hfree p hp hother (Term.iri.inj hsubject)

/-- At the place of a property a new entity has the triples of its terms. -/
theorem any_triplesOf_place {uri : String} (hp : p ∈ t.properties)
    (hpredicate : p.predicate = some predicate)
    (honly : ∀ q ∈ t.properties, q.predicate = some predicate → q = p) (o : Term) :
    (t.triplesOf uri d.state).any (Triple.stating uri predicate o).same =
      o.memberOf (d.state.terms p.name) := by
  rw [Bool.eq_iff_iff, EntityType.any_triplesOf]
  constructor
  · rintro ⟨q, hq, other, hother, -, hsame, hmem⟩
    obtain rfl := Term.iri.inj hsame
    exact honly q hq hother ▸ hmem
  · intro hmem
    exact ⟨p, hp, predicate, hpredicate, rfl, rfl, hmem⟩

/-- A creation adds the new entity to the view, at places where nothing was. -/
theorem Shown.created (h : s.Shown g) (hseparate : (s.afterCreation t d).Separate)
    (hfresh : ∀ u ∈ s.store.graph, u.subject ≠ .iri (s.freshIri t)) :
    (s.afterCreation t d).Shown (g.insertAll (t.triplesOf (s.freshIri t) d.state)) := by
  have hnew : ∀ {p predicate}, p ∈ t.properties → p.predicate = some predicate →
      (s.afterCreation t d).Owns s.entities.length (.created t (s.freshIri t) d.state) p predicate :=
    fun hp hpredicate => owns_afterCreation_new.mpr ⟨rfl, hp, hpredicate⟩
  have hold : ∀ {id e p predicate}, s.Owns id e p predicate →
      (s.afterCreation t d).Owns id e p predicate :=
    fun howns => (owns_afterCreation_old howns.id_ne).mpr howns
  constructor
  · intro id e p predicate howns o
    rw [Graph.holds_insertAll]
    by_cases hid : id = s.entities.length
    · subst hid
      obtain ⟨rfl, hp, hpredicate⟩ := owns_afterCreation_new.mp howns
      have hfree : ∀ {id e q}, s.Owns id e q predicate → e.uri ≠ s.freshIri t :=
        fun hother huri => hother.id_ne (hseparate (hold hother) howns huri).1
      have hstore := (h.others hfree o).trans (holds_fresh hfresh predicate o)
      have honly : ∀ q ∈ t.properties, q.predicate = some predicate → q = p :=
        fun q hq hother => (hseparate (hnew hq hother) howns rfl).2
      refine (congrArg (· || _) hstore).trans ?_
      rw [Bool.false_or]
      exact any_triplesOf_place hp hpredicate honly o
    · have hkept := (owns_afterCreation_old hid).mp howns
      have hfree : ∀ q ∈ t.properties, q.predicate = some predicate → e.uri ≠ s.freshIri t :=
        fun q hq hother huri => hid (hseparate howns (hnew hq hother) huri).1
      rw [h.owned hkept, any_triplesOf_free hfree, Bool.or_false]
  · intro uri predicate hfree o
    have hunowned : ∀ q ∈ t.properties, q.predicate = some predicate → uri ≠ s.freshIri t :=
      fun q hq hother => (hfree (hnew hq hother)).symm
    have hstore : (s.afterCreation t d).store = s.store := record_store _ _ _
    rw [Graph.holds_insertAll, any_triplesOf_free hunowned, Bool.or_false, hstore]
    exact h.others (fun howns => hfree (hold howns)) o

end Creating

end Session

end EntityMapping
