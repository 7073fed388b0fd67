import EntityMapping.Proofs.Entity.Encoding
import EntityMapping.Proofs.Session.Mutation

/-!
What a write of a value leaves.

The three mutations that write a value differ in the state that they give the property and in the
change that they record.  Beyond these two nothing happens, to the entity or to the session.
-/

namespace EntityMapping

namespace Entity

variable {e : Entity} {name predicate : String} {p : Property} {v : Value} {t new old : Term}

theorem Writable.eq_ok (h : e.Writable name p predicate) :
    e.writable name = .ok (p, predicate) := by
  refine bind_eq_ok.mpr ⟨p, h.property, guard_eq_ok.mpr ⟨by simp [h.alive], ?_⟩⟩
  rw [h.predicate]
  rfl

/-- The first value of a property of a single one. -/
theorem Writable.set_first (h : e.Writable name p predicate) (hone : p.isFunctional = true)
    (hold : (e.values.terms name).head? = none) (hv : v ≠ .nothing)
    (hterm : p.termFor v [] = .ok new) :
    e.set name v = .ok (some (e.holding name (.single (some new)), .add e.uri predicate new)) := by
  refine bind_eq_ok.mpr ⟨(p, predicate), h.eq_ok, guard_eq_ok.mpr ⟨by simp [hone], ?_⟩⟩
  rw [hold]
  cases v with
  | nothing => exact absurd rfl hv
  | _ => exact bind_eq_ok.mpr ⟨new, hterm, rfl⟩

/-- Another value of a property of a single one. -/
theorem Writable.set_another (h : e.Writable name p predicate) (hone : p.isFunctional = true)
    (hold : (e.values.terms name).head? = some old) (hv : v ≠ .nothing)
    (hterm : p.termFor v [old] = .ok new) :
    e.set name v =
      .ok (some (e.holding name (.single (some new)), .replace e.uri predicate old new)) := by
  refine bind_eq_ok.mpr ⟨(p, predicate), h.eq_ok, guard_eq_ok.mpr ⟨by simp [hone], ?_⟩⟩
  rw [hold]
  cases v with
  | nothing => exact absurd rfl hv
  | _ => exact bind_eq_ok.mpr ⟨new, hterm, rfl⟩

theorem Writable.add_eq (h : e.Writable name p predicate) (hmany : p.isFunctional = false)
    (hterm : p.termFor v (e.values.terms name) = .ok t) :
    e.add name v = .ok (e.holding name (.several (t.insertInto (e.values.terms name))),
      .add e.uri predicate t) :=
  bind_eq_ok.mpr ⟨(p, predicate), h.eq_ok, guard_eq_ok.mpr ⟨by simp [hmany],
    bind_eq_ok.mpr ⟨t, hterm, rfl⟩⟩⟩

theorem Writable.remove_eq (h : e.Writable name p predicate) (hmany : p.isFunctional = false)
    (hterm : p.termFor v (e.values.terms name) = .ok t) :
    e.remove name v = .ok (e.holding name (.several (t.eraseFrom (e.values.terms name))),
      .remove e.uri predicate t) :=
  bind_eq_ok.mpr ⟨(p, predicate), h.eq_ok, guard_eq_ok.mpr ⟨by simp [hmany],
    bind_eq_ok.mpr ⟨t, hterm, rfl⟩⟩⟩

/-- To give a property the state that it has changes nothing. -/
theorem property_holding_self (e : Entity) (name other : String) :
    (e.holding name (e.values.property name)).values.property other =
      e.values.property other := by
  rw [holding, EntityState.property, EntityState.lookup_set, EntityState.property,
    EntityState.property]
  by_cases hother : other = name
  · subst hother
    cases e.values.lookup other <;> simp
  · cases e.values.lookup other <;> simp [hother]

end Entity

namespace Session

variable {σ : Type} {s after : Session σ} {id : EntityId} {e written : Entity} {c : Change}

/-- One entity is another one now and one change says so; all else is as it was. -/
structure Writes (s : Session σ) (id : EntityId) (written : Entity) (c : Change)
    (after : Session σ) : Prop where
  entity : after.entity? id = some written
  others : ∀ other, other ≠ id → after.entity? other = s.entity? other
  journal : after.journal = s.journal.append c
  store : after.store = s.store

theorem writes_record (he : s.entity? id = some e) (written : Entity) (c : Change) :
    s.Writes id written c ((s.setEntity id written).record id c) where
  entity := by rw [entity?_record, entity?_setEntity s he, if_pos rfl]
  others other hother := by rw [entity?_record, entity?_setEntity s he, if_neg hother]
  journal := record_journal _ _ _
  store := record_store _ _ _

/-- A mutation of an entity, once it is not refused. -/
theorem exists_mutate (he : s.entity? id = some e)
    {f : Entity → Except MappingError (Option (Entity × Change))}
    (hf : f e = .ok (some (written, c))) :
    ∃ after, s.mutate id f = .ok after ∧ s.Writes id written c after := by
  refine ⟨_, ?_, writes_record he written c⟩
  simp only [mutate, he, hf]
  rfl

theorem exists_set (he : s.entity? id = some e) {name : String} {v : Value}
    (h : e.set name v = .ok (some (written, c))) :
    ∃ after, s.set id name v = .ok after ∧ s.Writes id written c after :=
  exists_mutate (f := fun e => e.set name v) he h

theorem exists_add (he : s.entity? id = some e) {name : String} {v : Value}
    (h : e.add name v = .ok (written, c)) :
    ∃ after, s.add id name v = .ok after ∧ s.Writes id written c after :=
  exists_mutate (f := fun e => (e.add name v).map some) he (congrArg (Except.map some) h)

theorem exists_remove (he : s.entity? id = some e) {name : String} {v : Value}
    (h : e.remove name v = .ok (written, c)) :
    ∃ after, s.remove id name v = .ok after ∧ s.Writes id written c after :=
  exists_mutate (f := fun e => (e.remove name v).map some) he (congrArg (Except.map some) h)

/-- A removal that is not refused has a term for the value. -/
theorem exists_of_remove (he : s.entity? id = some e) {name predicate : String} {p : Property}
    (hw : e.Writable name p predicate) {v : Value} (h : s.remove id name v = .ok after) :
    ∃ t, p.termFor v (e.values.terms name) = .ok t := by
  simp only [remove, mutate, he] at h
  obtain ⟨result, hresult, -⟩ := bind_eq_ok.mp h
  cases hremoved : e.remove name v with
  | error cause =>
      rw [hremoved] at hresult
      contradiction
  | ok found =>
      obtain ⟨⟨q, other⟩, hwritable, hrest⟩ := bind_eq_ok.mp hremoved
      obtain ⟨rfl, rfl⟩ := Prod.mk.inj (Except.ok.inj (hwritable.symm.trans hw.eq_ok))
      obtain ⟨-, hrest⟩ := guard_eq_ok.mp hrest
      obtain ⟨t, ht, -⟩ := bind_eq_ok.mp hrest
      exact ⟨t, ht⟩

end Session

end EntityMapping
