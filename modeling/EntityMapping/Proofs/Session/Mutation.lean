import EntityMapping.Proofs.Entity.Mutation
import EntityMapping.Proofs.Session.Loading
import EntityMapping.Session.Mutation

/-!
Mutations of a session, and all that they can do to it.

A mutation is refused, or it changes one entity and records one change, or it brings a new entity
and records its creation.
-/

namespace EntityMapping

/-- A mutation of an entity, or the creation of a new one. -/
inductive Mutation where
  | create (t : EntityType) (values : InitialValues)
  | set (id : EntityId) (name : String) (v : Value)
  | add (id : EntityId) (name : String) (v : Value)
  | remove (id : EntityId) (name : String) (v : Value)
  | delete (id : EntityId)
  | redirect (id : EntityId) (target : Value)

namespace Session

variable {σ : Type} {s s' : Session σ} {id other : EntityId} {e : Entity} {c : Change}

/-- The IRI of the next entity that is created. -/
def freshIri (s : Session σ) (t : EntityType) : String :=
  t.namespaceIri ++ t.anchor ++ s.suffixes.next.1

/-! ### Recording -/

theorem mem_withId {ids : List EntityId} : other ∈ withId ids id ↔ other ∈ ids ∨ other = id := by
  unfold withId
  split
  · next hid =>
      have hmem : id ∈ ids := by simpa using hid
      exact ⟨Or.inl, fun h => h.elim (fun h => h) fun heq => heq ▸ hmem⟩
  · simp

theorem markDirty_eq (he : s.entity? id = some e) :
    s.markDirty id = { s with
      cache := pinEntity s.cache e.key id
      dirty := withId s.dirty id
      redirtied := if s.journal.committing then withId s.redirtied id else s.redirtied } := by
  simp only [markDirty, he]

theorem record_eq (he : s.entity? id = some e) :
    s.record id c = { s with
      journal := s.journal.append c
      cache := pinEntity s.cache e.key id
      dirty := withId s.dirty id
      redirtied := if s.journal.committing then withId s.redirtied id else s.redirtied } :=
  markDirty_eq he

/-- Recording a change changes no entity. -/
theorem entity?_record (s : Session σ) (id : EntityId) (c : Change) (other : EntityId) :
    (s.record id c).entity? other = s.entity? other := by
  unfold record markDirty
  split <;> rfl

theorem record_store (s : Session σ) (id : EntityId) (c : Change) :
    (s.record id c).store = s.store := by
  unfold record markDirty
  split <;> rfl

theorem record_journal (s : Session σ) (id : EntityId) (c : Change) :
    (s.record id c).journal = s.journal.append c := by
  unfold record markDirty
  split <;> rfl

theorem record_changes (s : Session σ) (id : EntityId) (c : Change) :
    (s.record id c).journal.changes = s.journal.changes ++ [c] :=
  congrArg Journal.changes (record_journal s id c)

/-- Pinning an entity puts no other one into the cache. -/
theorem mem_pinEntity {cache : Cache (String × String) EntityId} {key : String × String}
    {entry : (String × String) × Option EntityId}
    (h : entry ∈ (pinEntity cache key id).entries) :
    entry ∈ cache.entries ∨ entry = (key, some id) := by
  unfold pinEntity at h
  dsimp only at h
  split at h
  · cases hpin : (cache.get key).2.pin? key with
    | none =>
        rw [hpin] at h
        exact Or.inl (Cache.mem_of_mem_get h)
    | some pinned =>
        rw [hpin, Cache.pin?_eq hpin] at h
        exact Or.inl (Cache.mem_of_mem_get h)
  · exact (Cache.mem_put h).imp_left Cache.mem_of_mem_get

/-- Pinning an entity brings no other pin. -/
theorem mem_pinEntity_pinned {cache : Cache (String × String) EntityId}
    {key k : String × String} (h : k ∈ (pinEntity cache key id).pinned) :
    k ∈ cache.pinned ∨ k = key := by
  unfold pinEntity at h
  dsimp only at h
  split at h
  · cases hpin : (cache.get key).2.pin? key with
    | none =>
        rw [hpin] at h
        exact Or.inl (by simpa using h)
    | some pinned =>
        rw [hpin, Cache.pin?_eq hpin] at h
        simpa using Cache.mem_withPin.mp h
  · simpa using Cache.mem_put_pinned.mp h

/-- A mutation of an entity is refused, or the entity becomes another one and a change says so. -/
theorem mutate_cases (s : Session σ) (id : EntityId)
    (f : Entity → Except MappingError (Option (Entity × Change))) :
    (s.mutate id f).toOption.getD s = s ∨
      ∃ e after c, s.entity? id = some e ∧ f e = .ok (some (after, c)) ∧
        (s.mutate id f).toOption.getD s = (s.setEntity id after).record id c := by
  unfold mutate
  cases he : s.entity? id with
  | none => exact Or.inl rfl
  | some e =>
      cases hmutated : f e with
      | error cause =>
          simp only [hmutated]
          exact Or.inl rfl
      | ok result =>
          cases result with
          | none =>
              simp only [hmutated]
              exact Or.inl rfl
          | some mutated =>
              refine Or.inr ⟨e, mutated.1, mutated.2, rfl, hmutated, ?_⟩
              simp only [hmutated]
              rfl

/-! ### Creating -/

/-- A creation is refused, which may use up an identifier, or it keeps the entity of its draft. -/
theorem create_cases (s : Session σ) (t : EntityType) (values : InitialValues) :
    (∃ cause suffixes, s.create t values = (.error cause, { s with suffixes := suffixes })) ∨
      ∃ d, t.draft (s.freshIri t) values = .ok d ∧ s.create t values = (.ok s.entities.length,
        ({ s with suffixes := s.suffixes.next.2 }.keepCreated t (s.freshIri t) d).2) := by
  unfold create
  cases t.checkInitial values with
  | error cause => exact Or.inl ⟨cause, s.suffixes, rfl⟩
  | ok checked =>
      cases hdraft : t.draft (s.freshIri t) values with
      | error cause =>
          have hrefused : t.draft (t.namespaceIri ++ t.anchor ++ s.suffixes.next.1) values =
              .error cause := hdraft
          simp only [hrefused]
          exact Or.inl ⟨cause, s.suffixes.next.2, rfl⟩
      | ok d =>
          have hmade : t.draft (t.namespaceIri ++ t.anchor ++ s.suffixes.next.1) values =
              .ok d := hdraft
          simp only [hmade]
          exact Or.inr ⟨d, rfl, rfl⟩

end Session

namespace Mutation

variable {σ : Type}

/-- The entity that is mutated.  One that is created gets the next number. -/
def author (s : Session σ) : Mutation → EntityId
  | .create _ _ => s.entities.length
  | .set id _ _ => id
  | .add id _ _ => id
  | .remove id _ _ => id
  | .delete id => id
  | .redirect id _ => id

/-- The session after a mutation, which may be refused. -/
def run (s : Session σ) : Mutation → Session σ
  | .create t values => (s.create t values).2
  | .set id name v => (s.set id name v).toOption.getD s
  | .add id name v => (s.add id name v).toOption.getD s
  | .remove id name v => (s.remove id name v).toOption.getD s
  | .delete id => (s.delete id).toOption.getD s
  | .redirect id target => (s.redirect id target).toOption.getD s

/-- The changes that a mutation puts behind those that wait. -/
def recorded (m : Mutation) (s : Session σ) : List Change :=
  (m.run s).journal.changes.drop s.journal.changes.length

/-- Whether a mutation writes a value of an entity that is there. -/
def writesValue : Mutation → Bool
  | .set _ _ _ | .add _ _ _ | .remove _ _ _ => true
  | _ => false

/-- The terms that a mutation may bind to a property of an entity.  To unset a property binds
none. -/
def Binds (e : Entity) : Mutation → Term → Prop
  | .set _ name v, t => v ≠ .nothing ∧ e.Binds name v t
  | .add _ name v, t | .remove _ name v, t => e.Binds name v t
  | _, _ => False

/-- All that a mutation can do to a session. -/
inductive Steps (s : Session σ) : Mutation → Session σ → Prop where
  /-- A creation may use up an identifier even if it is refused. -/
  | refused (m : Mutation) (suffixes : Suffixes) : Steps s m { s with suffixes := suffixes }
  | changed {m : Mutation} {e after : Entity} {c : Change} (he : s.entity? (m.author s) = some e)
      (hafter : e.Mutates after c)
      (hvalue : m.writesValue = true → e.Updates (m.Binds e) after c) :
      Steps s m ((s.setEntity (m.author s) after).record (m.author s) c)
  | created {t : EntityType} {values : InitialValues} {d : Draft}
      (hdraft : t.draft (s.freshIri t) values = .ok d) :
      Steps s (.create t values)
        ({ s with suffixes := s.suffixes.next.2 }.keepCreated t (s.freshIri t) d).2

theorem steps_mutate (s : Session σ) (m : Mutation)
    {f : Entity → Except MappingError (Option (Entity × Change))}
    (hf : ∀ {e after c}, f e = .ok (some (after, c)) →
      e.Mutates after c ∧ (m.writesValue = true → e.Updates (m.Binds e) after c)) :
    Steps s m ((s.mutate (m.author s) f).toOption.getD s) := by
  rcases s.mutate_cases (m.author s) f with hrefused | ⟨e, after, c, he, hmutated, hchanged⟩
  · rw [hrefused]
    exact .refused m s.suffixes
  · obtain ⟨hafter, hvalue⟩ := hf hmutated
    rw [hchanged]
    exact .changed he hafter hvalue

/-- A mutation of an entity that writes a value. -/
theorem steps_update (s : Session σ) (m : Mutation)
    {f : Entity → Except MappingError (Option (Entity × Change))}
    (hf : ∀ {e after c}, f e = .ok (some (after, c)) → e.Updates (m.Binds e) after c) :
    Steps s m ((s.mutate (m.author s) f).toOption.getD s) :=
  steps_mutate s m fun h => ⟨.update (hf h), fun _ => hf h⟩

theorem map_some_eq_ok {α ε : Type} {x : Except ε α} {a : α}
    (h : x.map some = .ok (some a)) : x = .ok a := by
  cases x with
  | error e => contradiction
  | ok b => exact congrArg _ (Option.some.inj (Except.ok.inj h))

theorem steps_create (s : Session σ) (t : EntityType) (values : InitialValues) :
    Steps s (.create t values) (s.create t values).2 := by
  rcases s.create_cases t values with ⟨cause, suffixes, hrefused⟩ | ⟨d, hdraft, hcreated⟩
  · rw [hrefused]
    exact .refused _ suffixes
  · rw [hcreated]
    exact .created hdraft

theorem run_steps (m : Mutation) (s : Session σ) : Steps s m (m.run s) := by
  cases m with
  | create t values => exact steps_create s t values
  | set id name v => exact steps_update s (.set id name v) Entity.set_updates
  | add id name v =>
      exact steps_update s (.add id name v) fun h => Entity.add_updates (map_some_eq_ok h)
  | remove id name v =>
      exact steps_update s (.remove id name v) fun h => Entity.remove_updates (map_some_eq_ok h)
  | delete id =>
      exact steps_mutate s (.delete id) fun h =>
        ⟨Entity.delete_mutates (map_some_eq_ok h), nofun⟩
  | redirect id target =>
      exact steps_mutate s (.redirect id target) fun h =>
        ⟨Entity.redirect_mutates (map_some_eq_ok h), nofun⟩

end Mutation

end EntityMapping
