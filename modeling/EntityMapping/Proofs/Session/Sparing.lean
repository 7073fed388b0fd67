import EntityMapping.Proofs.Session.RoundTrip

/-!
Changes that take nothing away which has to be there.

An entity of a star needs an object for each clause that is not optional.  Where the property of the
clause has one value, no mutation takes the object away but by putting another one in its place: to
unset the property is refused.
-/

namespace EntityMapping

open Sparql (Star)

/-! ### Objects that stay -/

namespace Graph

variable {g h : Graph} {uri predicate subject place : String}

/-- An IRI has an object for a predicate. -/
def States (g : Graph) (uri predicate : String) : Prop :=
  ∃ o : Term, g.holds (.stating uri predicate o) = true

theorem objects_ne_nil_iff :
    g.objects (.iri uri) (.iri predicate) ≠ [] ↔ g.States uri predicate := by
  constructor
  · intro hsome
    obtain ⟨o, ho⟩ := List.exists_mem_of_ne_nil _ hsome
    exact ⟨o, (memberOf_objects g uri predicate o).symm.trans
      (Term.memberOf_iff.mpr ⟨o, ho, Term.same_refl o⟩)⟩
  · rintro ⟨o, ho⟩
    rw [← memberOf_objects] at ho
    obtain ⟨t, ht, -⟩ := Term.memberOf_iff.mp ho
    exact List.ne_nil_of_mem ht

theorem States.congr (hs : g.States uri predicate) (hsame : h.Same g) : h.States uri predicate := by
  obtain ⟨o, ho⟩ := hs
  exact ⟨o, (hsame _).trans ho⟩

theorem States.elsewhere (hs : g.States uri predicate) (helse : h.SameElsewhere g subject place)
    (hne : uri ≠ subject ∨ predicate ≠ place) : h.States uri predicate := by
  obtain ⟨o, ho⟩ := hs
  exact ⟨o, (helse uri predicate hne o).trans ho⟩

theorem States.insertAll (hs : g.States uri predicate) (ts : List Triple) :
    (g.insertAll ts).States uri predicate := by
  obtain ⟨o, ho⟩ := hs
  exact ⟨o, by rw [holds_insertAll, ho, Bool.true_or]⟩

theorem states_insert (g : Graph) (uri predicate : String) (o : Term) :
    (g.insert (.stating uri predicate o)).States uri predicate :=
  ⟨o, by rw [holds_insert_here, Term.same_refl, Bool.or_true]⟩

end Graph

namespace Edit

variable {kept : String → Prop} {g : Graph} {uri predicate : String} {edits : List Edit}

/-- An edit that takes no object of some predicates away but for another one. -/
def Spares (kept : String → Prop) : Edit → Prop
  | .add _ _ _ | .replace _ _ _ _ | .create _ => True
  | .remove _ predicate _ => ¬ kept predicate
  | .delete _ | .redirect _ _ => False

theorem Spares.states {e : Edit} (h : e.Spares kept) (hkept : kept predicate)
    (hs : g.States uri predicate) : Graph.States (effect g e) uri predicate := by
  cases e with
  | add subject place value => exact hs.insertAll [.stating subject place value]
  | remove subject place value =>
      have hne : predicate ≠ place := fun heq => h (heq ▸ hkept)
      exact hs.elsewhere (Graph.erase_elsewhere g subject place value) (Or.inr hne)
  | replace subject place old new =>
      by_cases hplace : uri = subject ∧ predicate = place
      · obtain ⟨rfl, rfl⟩ := hplace
        exact Graph.states_insert _ uri predicate new
      · have helse := (Graph.insert_elsewhere _ subject place new).trans
          (Graph.erase_elsewhere g subject place old)
        exact hs.elsewhere helse (not_and_or.mp hplace)
  | create c => exact hs.insertAll c.triples
  | delete subject => exact absurd h id
  | redirect oldUri newUri => exact absurd h id

theorem states_replay (h : ∀ e ∈ edits, e.Spares kept) (hkept : kept predicate)
    (hs : g.States uri predicate) : Graph.States (replay edits g) uri predicate := by
  induction edits generalizing g with
  | nil => exact hs
  | cons e edits ih =>
      exact ih (fun other hother => h other (List.mem_cons_of_mem _ hother))
        ((h e List.mem_cons_self).states hkept hs)

end Edit

/-! ### What has to be there -/

namespace EntityType

variable {t : EntityType} {b : Star} {predicate : String}

/-- A predicate for which every entity of a type has to have an object: that of a clause which is not
optional, and of a property of one value. -/
structure Keeps (t : EntityType) (b : Star) (predicate : String) : Prop where
  required : ∃ c ∈ b.clauses, c.predicate = predicate ∧ c.isOptional = false
  single : ∃ p ∈ t.properties, p.predicate = some predicate ∧ p.multiplicity = .one

/-- Types of stars, none of which can take away what has to be there for another one. -/
structure Compatible (types : List EntityType) (star : EntityType → Star) : Prop where
  ofStar : ∀ t ∈ types, t.OfStar (star t)
  apart : ∀ t ∈ types, ∀ predicate, t.Keeps (star t) predicate →
    ∀ other ∈ types, ∀ p ∈ other.properties, p.predicate = some predicate → p.multiplicity = .one

/-- A predicate for which the entities of one of some types have to have an object. -/
def Kept (types : List EntityType) (star : EntityType → Star) (predicate : String) : Prop :=
  ∃ t ∈ types, t.Keeps (star t) predicate

/-- The predicates of a star are apart, so each type can be used alone. -/
theorem OfStar.compatible (h : t.OfStar b) : Compatible [t] fun _ => b where
  ofStar other hother := List.mem_singleton.mp hother ▸ h
  apart other hother predicate hkeeps := by
    obtain rfl := List.mem_singleton.mp hother
    intro other hother p hp hpredicate
    obtain rfl := List.mem_singleton.mp hother
    obtain ⟨q, hq, hown, hone⟩ := hkeeps.single
    obtain rfl := h.follows.eq_of_predicate hq hp (hpredicate.trans hown.symm)
    exact hone

/-- A creation states what has to be there. -/
theorem Keeps.states_draft (h : t.Keeps b predicate) {uri : String} {vs : InitialValues} {d : Draft}
    (hwrites : t.Writes uri vs) (hdraft : t.draft uri vs = .ok d) (g : Graph) :
    (g.insertAll (t.triplesOf uri d.state)).States uri predicate := by
  obtain ⟨p, hp, hpredicate, hone⟩ := h.single
  have hwritable : p.isWritable = true := Option.isSome_iff_exists.mpr ⟨_, hpredicate⟩
  have hterms := terms_of_draft hwrites hdraft hp hwritable fun hnot => absurd hone hnot
  obtain ⟨o, ho⟩ := List.exists_mem_of_ne_nil _ hterms
  have hmember : o.memberOf (d.state.terms p.name) = true :=
    Term.memberOf_iff.mpr ⟨o, ho, Term.same_refl o⟩
  refine ⟨o, ?_⟩
  rw [Graph.holds_insertAll, any_triplesOf.mpr ⟨p, hp, predicate, hpredicate, rfl, rfl, hmember⟩,
    Bool.or_true]

end EntityType

/-! ### Values that are written -/

/-- A change that takes nothing away but a value of a property which may be without one. -/
def Change.Spares (t : EntityType) : Change → Prop
  | .remove _ predicate _ =>
    ∃ p ∈ t.properties, p.predicate = some predicate ∧ p.multiplicity ≠ .one
  | .delete _ | .redirect _ _ => False
  | _ => True

namespace Entity

variable {e after : Entity} {name : String} {v : Value} {c : Change}

theorem set_spares (h : e.set name v = .ok (some (after, c))) : c.Spares e.type := by
  obtain ⟨p, predicate, hw, -, hcases⟩ := set_cases h
  rcases hcases with ⟨-, hnullable, old, -, -, rfl⟩ | ⟨-, new, -, -, -, rfl⟩ |
    ⟨-, old, new, -, -, -, rfl⟩
  · refine ⟨p, (EntityType.property_ok hw.property).1, hw.predicate, fun hone => ?_⟩
    simp [Property.isNullable, hone] at hnullable
  · trivial
  · trivial

theorem add_spares (h : e.add name v = .ok (after, c)) : c.Spares e.type := by
  obtain ⟨⟨p, predicate⟩, -, h⟩ := bind_eq_ok.mp h
  obtain ⟨-, h⟩ := guard_eq_ok.mp h
  obtain ⟨t, -, h⟩ := bind_eq_ok.mp h
  obtain ⟨-, rfl⟩ := Prod.mk.inj (Except.ok.inj h)
  trivial

theorem remove_spares (h : e.remove name v = .ok (after, c)) : c.Spares e.type := by
  obtain ⟨⟨p, predicate⟩, hwritable, h⟩ := bind_eq_ok.mp h
  have hw := writable_of_ok hwritable
  obtain ⟨hmany, h⟩ := guard_eq_ok.mp h
  obtain ⟨t, -, h⟩ := bind_eq_ok.mp h
  obtain ⟨-, rfl⟩ := Prod.mk.inj (Except.ok.inj h)
  refine ⟨p, (EntityType.property_ok hw.property).1, hw.predicate, fun hone => ?_⟩
  simp [Property.isFunctional, hone] at hmany

end Entity

section Writing

variable {σ : Type} (s : Session σ)

/-- A mutation of an entity is refused, or the entity stays what it is and a change takes nothing
away but what may be missing. -/
theorem Session.mutate_spares (id : EntityId)
    {f : Entity → Except MappingError (Option (Entity × Change))}
    (hf : ∀ {e after c}, f e = .ok (some (after, c)) →
      (∃ bound, e.Updates bound after c) ∧ c.Spares e.type) :
    (s.mutate id f).toOption.getD s = s ∨
      ∃ e after c, s.entity? id = some e ∧ after.type = e.type ∧ after.uri = e.uri ∧
        c.Spares e.type ∧ (s.mutate id f).toOption.getD s = (s.setEntity id after).record id c := by
  rcases s.mutate_cases id f with hrefused | ⟨e, after, c, he, hmutated, hchanged⟩
  · exact Or.inl hrefused
  · obtain ⟨⟨bound, hafter⟩, hspares⟩ := hf hmutated
    obtain ⟨-, htype, huri, -⟩ := hafter.keeps
    exact Or.inr ⟨e, after, c, he, htype, huri, hspares, hchanged⟩

/-- So it is with every mutation that writes a value. -/
theorem Mutation.write_cases {m : Mutation} (hvalue : m.writesValue = true) :
    m.run s = s ∨ ∃ e after c, s.entity? (m.author s) = some e ∧ after.type = e.type ∧
      after.uri = e.uri ∧ c.Spares e.type ∧
      m.run s = (s.setEntity (m.author s) after).record (m.author s) c := by
  cases m with
  | set id name v =>
      exact s.mutate_spares id fun h => ⟨⟨_, Entity.set_updates h⟩, Entity.set_spares h⟩
  | add id name v =>
      exact s.mutate_spares id fun h =>
        ⟨⟨_, Entity.add_updates (map_some_eq_ok h)⟩, Entity.add_spares (map_some_eq_ok h)⟩
  | remove id name v =>
      exact s.mutate_spares id fun h =>
        ⟨⟨_, Entity.remove_updates (map_some_eq_ok h)⟩, Entity.remove_spares (map_some_eq_ok h)⟩
  | _ => contradiction

end Writing

end EntityMapping
