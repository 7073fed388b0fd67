import EntityMapping.Entity
import EntityMapping.Proofs.Entity.Type

/-!
What a mutation of an entity does, once it is not refused.

Each of the mutations has few outcomes: values of one property are replaced and one change says so,
or the entity is deleted.  Nothing else about the entity changes.
-/

namespace EntityMapping.Entity

variable {e after : Entity} {name predicate : String} {p : Property} {v : Value} {c : Change}

/-- The entity with another state of one property. -/
def holding (e : Entity) (name : String) (state : PropertyState) : Entity :=
  { e with values := e.values.set name state }

/-- A property of an entity that can be written now, with its predicate. -/
structure Writable (e : Entity) (name : String) (p : Property) (predicate : String) : Prop where
  property : e.type.property name = .ok p
  alive : e.deleted = false
  predicate : p.predicate = some predicate

/-- The terms that a value may be written as beside what an entity has for a property. -/
def Binds (e : Entity) (name : String) (v : Value) (t : Term) : Prop :=
  ∃ p stored, e.type.property name = .ok p ∧ stored ⊆ e.values.terms name ∧
    p.termFor v stored = .ok t

/-- What happens to an entity when one of some terms is written, and the change that says so. -/
inductive Updates (e : Entity) (bound : Term → Prop) : Entity → Change → Prop where
  | assign {name predicate : String} {p : Property} (h : e.Writable name p predicate)
      (hone : p.isFunctional = true) (hold : (e.values.terms name).head? = none) {new : Term}
      (hnew : bound new) :
      Updates e bound (e.holding name (.single (some new))) (.add e.uri predicate new)
  | unset {name predicate : String} {p : Property} (h : e.Writable name p predicate)
      (hone : p.isFunctional = true) {old : Term}
      (hold : (e.values.terms name).head? = some old) :
      Updates e bound (e.holding name (.single none)) (.remove e.uri predicate old)
  | replace {name predicate : String} {p : Property} (h : e.Writable name p predicate)
      (hone : p.isFunctional = true) {old : Term}
      (hold : (e.values.terms name).head? = some old) {new : Term} (hnew : bound new) :
      Updates e bound (e.holding name (.single (some new))) (.replace e.uri predicate old new)
  | add {name predicate : String} {p : Property} (h : e.Writable name p predicate)
      (hmany : p.isFunctional = false) {t : Term} (ht : bound t) :
      Updates e bound (e.holding name (.several (t.insertInto (e.values.terms name))))
        (.add e.uri predicate t)
  | remove {name predicate : String} {p : Property} (h : e.Writable name p predicate)
      (hmany : p.isFunctional = false) {t : Term} (ht : bound t) :
      Updates e bound (e.holding name (.several (t.eraseFrom (e.values.terms name))))
        (.remove e.uri predicate t)

/-- What mutations do to an entity, and the changes that they record. -/
inductive Mutates (e : Entity) : Entity → Change → Prop where
  | update {bound : Term → Prop} {after : Entity} {c : Change} (h : e.Updates bound after c) :
      Mutates e after c
  | delete (halive : e.deleted = false) : Mutates e { e with deleted := true } (.delete e.uri)
  | redirect (halive : e.deleted = false) (target : String) :
      Mutates e { e with deleted := true } (.redirect e.uri target)

theorem writable_of_ok (h : e.writable name = .ok (p, predicate)) :
    e.Writable name p predicate := by
  obtain ⟨q, hq, h⟩ := bind_eq_ok.mp h
  obtain ⟨halive, h⟩ := guard_eq_ok.mp h
  cases hpredicate : q.predicate with
  | none => simp [hpredicate] at h
  | some found =>
      simp only [hpredicate] at h
      obtain ⟨rfl, rfl⟩ := Prod.mk.inj (Except.ok.inj h)
      exact ⟨hq, halive, hpredicate⟩

/-- What it comes to when a property is set: it is unset, which it has to allow, or a term is written,
the first one or in the place of another. -/
theorem set_cases (h : e.set name v = .ok (some (after, c))) :
    ∃ p predicate, e.Writable name p predicate ∧ p.isFunctional = true ∧
      ((v = .nothing ∧ p.isNullable = true ∧ ∃ old, (e.values.terms name).head? = some old ∧
          after = e.holding name (.single none) ∧ c = .remove e.uri predicate old) ∨
        (v ≠ .nothing ∧ ∃ new, (e.values.terms name).head? = none ∧ p.termFor v [] = .ok new ∧
          after = e.holding name (.single (some new)) ∧ c = .add e.uri predicate new) ∨
        (v ≠ .nothing ∧ ∃ old new, (e.values.terms name).head? = some old ∧
          p.termFor v [old] = .ok new ∧ after = e.holding name (.single (some new)) ∧
          c = .replace e.uri predicate old new)) := by
  obtain ⟨⟨p, predicate⟩, hwritable, h⟩ := bind_eq_ok.mp h
  obtain ⟨hone, h⟩ := guard_eq_ok.mp h
  refine ⟨p, predicate, writable_of_ok hwritable, by simpa using hone, ?_⟩
  by_cases hv : v = .nothing
  · subst hv
    obtain ⟨hnullable, h⟩ := guard_eq_ok.mp h
    obtain ⟨old, hold, hafter⟩ := Option.map_eq_some_iff.mp (Except.ok.inj h)
    obtain ⟨rfl, rfl⟩ := Prod.mk.inj hafter
    exact Or.inl ⟨rfl, by simpa using hnullable, old, hold, rfl, rfl⟩
  · cases hold : (e.values.terms name).head? with
    | none =>
        rw [hold] at h
        cases v with
        | nothing => exact absurd rfl hv
        | _ =>
            obtain ⟨new, hnew, h⟩ := bind_eq_ok.mp h
            obtain ⟨rfl, rfl⟩ := Prod.mk.inj (Option.some.inj (Except.ok.inj h))
            exact Or.inr (Or.inl ⟨hv, new, rfl, hnew, rfl, rfl⟩)
    | some old =>
        rw [hold] at h
        cases v with
        | nothing => exact absurd rfl hv
        | _ =>
            obtain ⟨new, hnew, h⟩ := bind_eq_ok.mp h
            obtain ⟨rfl, rfl⟩ := Prod.mk.inj (Option.some.inj (Except.ok.inj h))
            exact Or.inr (Or.inr ⟨hv, old, new, rfl, hnew, rfl, rfl⟩)

theorem set_updates (h : e.set name v = .ok (some (after, c))) :
    e.Updates (fun t => v ≠ .nothing ∧ e.Binds name v t) after c := by
  obtain ⟨p, predicate, hw, hone, hcases⟩ := set_cases h
  rcases hcases with ⟨-, -, old, hold, rfl, rfl⟩ | ⟨hv, new, hold, hnew, rfl, rfl⟩ |
    ⟨hv, old, new, hold, hnew, rfl, rfl⟩
  · exact .unset hw hone hold
  · exact .assign hw hone hold ⟨hv, p, [], hw.property, List.nil_subset _, hnew⟩
  · have hstored : [old] ⊆ e.values.terms name :=
      List.cons_subset.mpr ⟨List.mem_of_mem_head? hold, List.nil_subset _⟩
    exact .replace hw hone hold ⟨hv, p, [old], hw.property, hstored, hnew⟩

theorem add_updates (h : e.add name v = .ok (after, c)) : e.Updates (e.Binds name v) after c := by
  obtain ⟨⟨p, predicate⟩, hwritable, h⟩ := bind_eq_ok.mp h
  have hw := writable_of_ok hwritable
  obtain ⟨hmany, h⟩ := guard_eq_ok.mp h
  obtain ⟨t, ht, h⟩ := bind_eq_ok.mp h
  obtain ⟨rfl, rfl⟩ := Prod.mk.inj (Except.ok.inj h)
  exact .add hw hmany ⟨p, _, hw.property, List.Subset.refl _, ht⟩

theorem remove_updates (h : e.remove name v = .ok (after, c)) :
    e.Updates (e.Binds name v) after c := by
  obtain ⟨⟨p, predicate⟩, hwritable, h⟩ := bind_eq_ok.mp h
  have hw := writable_of_ok hwritable
  obtain ⟨hmany, h⟩ := guard_eq_ok.mp h
  obtain ⟨t, ht, h⟩ := bind_eq_ok.mp h
  obtain ⟨rfl, rfl⟩ := Prod.mk.inj (Except.ok.inj h)
  exact .remove hw hmany ⟨p, _, hw.property, List.Subset.refl _, ht⟩

theorem delete_mutates (h : e.delete = .ok (after, c)) : e.Mutates after c := by
  unfold delete at h
  obtain ⟨halive, h⟩ := guard_eq_ok.mp h
  obtain ⟨rfl, rfl⟩ := Prod.mk.inj (Except.ok.inj h)
  exact .delete halive

theorem redirect_mutates {gone : Bool} (h : e.redirect v gone = .ok (after, c)) :
    e.Mutates after c := by
  unfold redirect at h
  obtain ⟨halive, h⟩ := guard_eq_ok.mp h
  obtain ⟨target, -, h⟩ := bind_eq_ok.mp h
  obtain ⟨-, h⟩ := guard_eq_ok.mp h
  obtain ⟨rfl, rfl⟩ := Prod.mk.inj (Except.ok.inj h)
  exact .redirect halive target

/-- A mutation leaves alone what an entity is, and what is taken for committed. -/
theorem Mutates.keeps (h : e.Mutates after c) : after.type = e.type ∧ after.uri = e.uri ∧
    after.committed = e.committed ∧ after.isNew = e.isNew := by
  cases h with
  | update h => cases h <;> exact ⟨rfl, rfl, rfl, rfl⟩
  | delete halive => exact ⟨rfl, rfl, rfl, rfl⟩
  | redirect halive target => exact ⟨rfl, rfl, rfl, rfl⟩

/-- Writing a value leaves everything but the values alone. -/
theorem Updates.keeps {bound : Term → Prop} (h : e.Updates bound after c) : e.deleted = false ∧ after.type = e.type ∧
    after.uri = e.uri ∧ after.deleted = e.deleted := by
  cases h with
  | assign hw => exact ⟨hw.alive, rfl, rfl, rfl⟩
  | unset hw => exact ⟨hw.alive, rfl, rfl, rfl⟩
  | replace hw => exact ⟨hw.alive, rfl, rfl, rfl⟩
  | add hw => exact ⟨hw.alive, rfl, rfl, rfl⟩
  | remove hw => exact ⟨hw.alive, rfl, rfl, rfl⟩

theorem fits_holding (hnames : (e.type.properties.map Property.name).Nodup)
    (hfits : e.values.Fits e.type.properties) (hw : e.Writable name p predicate)
    {state : PropertyState} (hstate : state.isSingle = p.isFunctional) :
    (e.holding name state).values.Fits e.type.properties := by
  obtain ⟨hp, rfl⟩ := EntityType.property_ok hw.property
  exact hfits.set hp hnames hstate

theorem terms_holding (hfits : e.values.Fits e.type.properties) (hw : e.Writable name p predicate)
    (state : PropertyState) (other : String) : (e.holding name state).values.terms other =
      if other = name then state.terms else e.values.terms other := by
  obtain ⟨hp, rfl⟩ := EntityType.property_ok hw.property
  rw [EntityState.terms, holding, EntityState.property_set _ (hfits.mem hp)]
  split <;> rfl

end EntityMapping.Entity
