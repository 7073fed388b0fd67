import EntityMapping.Proofs.Cache.Bound
import EntityMapping.Proofs.Session.Baseline

/-!
What the cache of a session promises in every state.

It has an entity under its own key, whatever is pinned and whoever is dirty.  All that is done with
a session keeps this, also what is done while a commit is on its way.
-/

namespace EntityMapping

namespace Session

variable {σ : Type} {s s' : Session σ} {id : EntityId} {e after : Entity}
  {key : String × String}

/-- The key of an entity. -/
def key? (s : Session σ) (id : EntityId) : Option (String × String) :=
  (s.entity? id).map Entity.key

theorem key?_eq (h : s.entity? id = some e) : s.key? id = some e.key := by
  rw [key?, h]
  rfl

theorem lt_of_key? (h : s.key? id = some key) : id < s.entities.length := by
  obtain ⟨e, he, -⟩ := Option.map_eq_some_iff.mp h
  exact lt_of_entity? he

theorem key?_setEntity (he : s.entity? id = some e) (hkey : after.key = e.key)
    (other : EntityId) : (s.setEntity id after).key? other = s.key? other := by
  rw [key?, entity?_setEntity s he]
  by_cases hother : other = id
  · rw [if_pos hother, hother, key?_eq he, ← hkey]
    rfl
  · rw [if_neg hother]
    rfl

theorem key?_addEntity (s : Session σ) (e : Entity) (other : EntityId) :
    (s.addEntity e).2.key? other =
      if other = s.entities.length then some e.key else s.key? other := by
  rw [key?, entity?_addEntity]
  split <;> rfl

theorem key?_congr (h : s'.entities = s.entities) (id : EntityId) : s'.key? id = s.key? id := by
  rw [key?, key?, entity?, entity?, h]

/-- A session whose cache has entities under their keys, and whose dirty entities are there. -/
structure Keyed (s : Session σ) : Prop where
  bounded : s.cache.Bounded
  known : ∀ id ∈ s.dirty, id < s.entities.length
  cached : ∀ key id, (key, some id) ∈ s.cache.entries → s.key? id = some key

theorem keyed_ofStore (store : σ) (suffixes : Suffixes) (size : Nat) :
    Keyed (.ofStore store suffixes size) where
  bounded := Cache.bounded_ofSize size
  known _ h := absurd h List.not_mem_nil
  cached _ _ h := absurd h List.not_mem_nil

/-- Nothing comes into the cache, nothing gets dirty, and entities keep their keys. -/
theorem Keyed.shrink (h : Keyed s) (hbounded : s'.cache.Bounded)
    (hentries : ∀ entry ∈ s'.cache.entries, entry ∈ s.cache.entries)
    (hdirty : ∀ id ∈ s'.dirty, id ∈ s.dirty) (hkey : ∀ id, s'.key? id = s.key? id)
    (hlength : s'.entities.length = s.entities.length) : Keyed s' where
  bounded := hbounded
  known id hid := hlength ▸ h.known id (hdirty id hid)
  cached key id hentry := (hkey id).trans (h.cached key id (hentries _ hentry))

theorem Keyed.congr (h : Keyed s) (hcache : s'.cache = s.cache) (hdirty : s'.dirty = s.dirty)
    (hkey : ∀ id, s'.key? id = s.key? id) (hlength : s'.entities.length = s.entities.length) :
    Keyed s' :=
  h.shrink (hcache ▸ h.bounded) (fun _ hentry => hcache ▸ hentry) (fun _ hid => hdirty ▸ hid)
    hkey hlength

theorem Keyed.setEntity (h : Keyed s) (he : s.entity? id = some e) (hkey : after.key = e.key) :
    Keyed (s.setEntity id after) :=
  h.congr rfl rfl (key?_setEntity he hkey) List.length_set

/-! ### Loading -/

theorem Keyed.cached_touched (h : Keyed s) (t : EntityType) (uri : String) :
    Keyed (s.cached t uri).2 :=
  h.shrink (h.bounded.get (t.name, uri)) (fun _ hentry => Cache.mem_of_mem_get hentry)
    (fun _ hid => hid) (fun _ => rfl) rfl

theorem Keyed.addEntity (h : Keyed s) (e : Entity) : Keyed (s.addEntity e).2 where
  bounded := h.bounded.put e.key (some s.entities.length) false
  known id hid := by
    simpa [Session.addEntity] using Nat.lt_succ_of_lt (h.known id hid)
  cached key id hentry := by
    rw [key?_addEntity]
    rcases Cache.mem_put hentry with hentry | hentry
    · have hkey := h.cached key id hentry
      rwa [if_neg (Nat.ne_of_lt (lt_of_key? hkey))]
    · obtain ⟨rfl, hid⟩ := Prod.mk.inj hentry
      rw [if_pos (Option.some.inj hid)]

theorem loadInvariant_keyed : LoadInvariant fun s : Session σ => Keyed s where
  congr h hcache hentities hdirty :=
    h.congr hcache hdirty (key?_congr hentities) (congrArg List.length hentities)
  cached h t uri := h.cached_touched t uri
  refresh h he _ := h.setEntity he rfl
  addEntity h _ := h.addEntity _

theorem Keyed.instantiate (h : Keyed s) (t : EntityType) (uri : String) (rows : List Row) :
    Keyed (s.instantiate t uri rows).2 :=
  loadInvariant_keyed.instantiate h t uri rows

theorem Keyed.ask [GraphStore σ] (h : Keyed s) (text : String) : Keyed (s.ask text).2 :=
  h.congr rfl rfl (fun _ => rfl) rfl

/-! ### Mutations -/

/-- Pinning an entity puts it under its key, or leaves it there, and pins the key. -/
theorem pinEntity_cases (cache : Cache (String × String) EntityId) (key : String × String)
    (id : EntityId) :
    (key, some id) ∈ (cache.get key).2.entries ∧
        pinEntity cache key id = { (cache.get key).2 with
          pinned := Cache.withPin (cache.get key).2.pinned key } ∨
      pinEntity cache key id = (cache.get key).2.put key (some id) true := by
  unfold pinEntity
  dsimp only
  split
  · next hfound =>
      have hmem := Cache.mem_get_of_peek ((Cache.get_fst cache key).symm.trans hfound)
      rw [Cache.pin?_of_present (Cache.mem_keys.mpr ⟨_, hmem⟩)]
      exact Or.inl ⟨hmem, rfl⟩
  · exact Or.inr rfl

variable {cache : Cache (String × String) EntityId}

theorem bounded_pinEntity (h : cache.Bounded) (key : String × String) (id : EntityId) :
    (pinEntity cache key id).Bounded := by
  have htouched := h.get key
  rcases pinEntity_cases cache key id with ⟨hmem, heq⟩ | heq
  · rw [heq]
    exact htouched.pin (Cache.mem_keys.mpr ⟨_, hmem⟩)
  · rw [heq]
    exact htouched.put key (some id) true

theorem Keyed.markDirty (h : Keyed s) (id : EntityId) : Keyed (s.markDirty id) := by
  cases he : s.entity? id with
  | none =>
      simp only [Session.markDirty, he]
      exact h
  | some e =>
      rw [markDirty_eq he]
      constructor
      · exact bounded_pinEntity h.bounded e.key id
      · intro other hother
        rcases mem_withId.mp hother with hother | rfl
        · exact h.known other hother
        · exact lt_of_entity? he
      · intro key other hentry
        rcases mem_pinEntity hentry with hentry | hentry
        · exact h.cached key other hentry
        · obtain ⟨rfl, hid⟩ := Prod.mk.inj hentry
          obtain rfl := Option.some.inj hid
          exact key?_eq he

theorem Keyed.record (h : Keyed s) (id : EntityId) (c : Change) : Keyed (s.record id c) := by
  have hjournal : Keyed { s with journal := s.journal.append c } :=
    h.congr rfl rfl (fun _ => rfl) rfl
  exact hjournal.markDirty id

theorem Keyed.steps {m : Mutation} (h : Keyed s) (hsteps : m.Steps s s') : Keyed s' := by
  cases hsteps with
  | refused m suffixes => exact h.congr rfl rfl (fun _ => rfl) rfl
  | @changed m e after c he hafter hvalue =>
      obtain ⟨htype, huri, -, -⟩ := hafter.keeps
      have hkey : after.key = e.key := by rw [Entity.key, Entity.key, htype, huri]
      exact (h.setEntity he hkey).record _ c
  | @created t values d hdraft =>
      have hnext : Keyed { s with suffixes := s.suffixes.next.2 } :=
        h.congr rfl rfl (fun _ => rfl) rfl
      exact (hnext.addEntity _).record _ _

theorem Keyed.act [GraphStore σ] (h : Keyed s) (a : Action σ) : Keyed (a.run s) := by
  cases a with
  | mutate m => exact h.steps (m.run_steps s)
  | select t text => exact loadInvariant_keyed.loadText h t text
  | load t uri => exact loadInvariant_keyed.load h t uri
  | register t => exact h.congr rfl rfl (fun _ => rfl) rfl
  | listen f => exact h.congr rfl rfl (fun _ => rfl) rfl
  | store f => exact h.congr rfl rfl (fun _ => rfl) rfl

/-! ### Commits and rollbacks -/

theorem Keyed.clean (h : Keyed s) (id : EntityId) :
    Keyed { s with dirty := s.dirty.filter (· ≠ id) } :=
  h.shrink h.bounded (fun _ hentry => hentry) (fun _ hid => (List.mem_filter.mp hid).1)
    (fun _ => rfl) rfl

theorem Keyed.release (h : Keyed s) (e : Entity) : Keyed (s.release e) := by
  unfold Session.release
  cases e.deleted with
  | true =>
      exact h.shrink (h.bounded.discard e.key) (fun _ hentry => (Cache.mem_discard.mp hentry).1)
        (fun _ hid => hid) (fun _ => rfl) rfl
  | false =>
      exact h.shrink (h.bounded.unpin e.key) (fun _ hentry => Cache.mem_of_mem_unpin hentry)
        (fun _ hid => hid) (fun _ => rfl) rfl

theorem Keyed.markCommitted (h : Keyed s) (id : EntityId) : Keyed (s.markCommitted id) := by
  unfold Session.markCommitted
  split
  · exact h
  · next e he => exact ((h.clean id).release e).setEntity (e := e) he rfl

theorem Keyed.settle (h : Keyed s) (committed : EntityId × EntityState) :
    Keyed (s.settle committed) := by
  unfold Session.settle
  dsimp only
  split
  · split
    · exact h
    · next e he => exact h.setEntity he rfl
  · exact h.markCommitted _

theorem Keyed.rollbackEntity (h : Keyed s) (id : EntityId) : Keyed (s.rollbackEntity id) := by
  unfold Session.rollbackEntity
  split
  · exact h
  · next e he =>
      have hkey : e.revert.key = e.key := rfl
      exact ((h.clean id).setEntity (e := e) he hkey).release e.revert

theorem keyed_foldl {ι : Type} {f : Session σ → ι → Session σ}
    (hf : ∀ {s : Session σ}, Keyed s → ∀ i, Keyed (f s i)) (h : Keyed s) (is : List ι) :
    Keyed (is.foldl f s) := by
  induction is generalizing s with
  | nil => exact h
  | cons i is ih => exact ih (hf h i)

theorem Keyed.beginCommit (h : Keyed s) : Keyed s.beginCommit.2 := by
  have hbegins := s.beginCommit_begins
  generalize s.beginCommit = began at hbegins ⊢
  cases hbegins with
  | idle hempty => exact h
  | refused e => exact h.congr rfl rfl (fun _ => rfl) rfl
  | begun c hsome hchanges hupdate hstates => exact h.congr rfl rfl (fun _ => rfl) rfl

theorem Keyed.endCommit (h : Keyed s) (c : Commit) (outcome : Outcome) :
    Keyed (s.endCommit c outcome).2 := by
  unfold Session.endCommit
  rcases s.journal.finish c.batch outcome with ⟨cause | changes, journal⟩
  · exact h.congr rfl rfl (fun _ => rfl) rfl
  · have hjournal : Keyed { s with journal := journal } := h.congr rfl rfl (fun _ => rfl) rfl
    have hsettled := keyed_foldl (fun h committed => h.settle committed) hjournal c.states
    exact hsettled.congr rfl rfl (fun _ => rfl) rfl

theorem Keyed.rollback (h : Keyed s) : Keyed s.rollback := by
  have hcleared : Keyed { s with journal := s.journal.clear } := h.congr rfl rfl (fun _ => rfl) rfl
  exact keyed_foldl (fun h id => h.rollbackEntity id) hcleared s.dirty

/-! ### Every state of a session -/

/-- The states of a session, step by step.  A commit begins and ends, and anything may be done with
the session in between, also to begin another one. -/
inductive Reached [GraphStore σ] : Session σ → Prop where
  | start (store : σ) (suffixes : Suffixes) (cacheSize : Nat) :
      Reached (.ofStore store suffixes cacheSize)
  | act {s : Session σ} (h : Reached s) (a : Action σ) : Reached (a.run s)
  | get {s : Session σ} (h : Reached s) (id : EntityId) (name : String) : Reached (s.get id name).2
  | beginCommit {s : Session σ} (h : Reached s) : Reached s.beginCommit.2
  | endCommit {s : Session σ} (h : Reached s) (c : Commit) (outcome : Outcome) :
      Reached (s.endCommit c outcome).2
  | rollback {s : Session σ} (h : Reached s) : Reached s.rollback
  | markDirty {s : Session σ} (h : Reached s) (id : EntityId) : Reached (s.markDirty id)
  | markCommitted {s : Session σ} (h : Reached s) (id : EntityId) : Reached (s.markCommitted id)
  | revert {s : Session σ} (h : Reached s) (id : EntityId) : Reached (s.revert id)
  /-- The journal is changed without the session. -/
  | journal {s : Session σ} (h : Reached s) (j : Journal) : Reached { s with journal := j }
  | close {s : Session σ} (h : Reached s) : Reached s.close

theorem Reached.keyed [GraphStore σ] (h : Reached s) : Keyed s := by
  induction h with
  | start store suffixes cacheSize => exact keyed_ofStore store suffixes cacheSize
  | act _ a ih => exact ih.act a
  | get _ id name ih => exact loadInvariant_keyed.get ih id name
  | beginCommit _ ih => exact ih.beginCommit
  | endCommit _ c outcome ih => exact ih.endCommit c outcome
  | rollback _ ih => exact ih.rollback
  | markDirty _ id ih => exact ih.markDirty id
  | markCommitted _ id ih => exact ih.markCommitted id
  | @revert s _ id ih =>
      unfold Session.revert
      split
      · exact ih
      · next e he => exact ih.setEntity he rfl
  | journal _ j ih => exact ih.congr rfl rfl (fun _ => rfl) rfl
  | close _ ih => exact ih.congr rfl rfl (fun _ => rfl) rfl

theorem Reached.runAll [GraphStore σ] (h : Reached s) (actions : List (Action σ)) :
    Reached (Action.runAll s actions) := by
  induction actions generalizing s with
  | nil => exact h
  | cons a rest ih => exact ih (h.act a)

theorem Reached.commitDuring [GraphStore σ] (h : Reached s) (trip : List (Action σ))
    (outcome : Outcome) : Reached (s.commitDuring trip outcome).2 := by
  have hbegun := h.beginCommit
  unfold Session.commitDuring commitWith
  generalize s.beginCommit = began at hbegun ⊢
  rcases began with ⟨cause | (- | c), begun⟩
  · exact hbegun
  · exact hbegun
  · exact (hbegun.runAll trip).endCommit c outcome

end Session

end EntityMapping
