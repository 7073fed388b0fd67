import EntityMapping.Proofs.Session.Keyed

/-!
Pins follow the dirty entities.

A session may hold several entities of one key, since one that left the cache is loaded again as
another.  Pins are kept by key, so a key stays pinned as long as one of its entities is dirty, and
the cache then has a dirty entity under it.  Commits and rollbacks clean all dirty entities
together, so no pin is taken from an entity that stays dirty.
-/

namespace EntityMapping

namespace Session

variable {σ : Type} {s s' : Session σ} {size : Nat} {id other : EntityId}
  {e after : Entity} {key k : String × String}

/-- A session with a cache of a given size in which the keys of the dirty entities, and no others,
are pinned.  Each of them stands for a dirty entity. -/
structure PinsDirty (size : Nat) (s : Session σ) : Prop where
  bounded : s.cache.Bounded
  maxSize : s.cache.maxSize = size
  known : ∀ id ∈ s.dirty, id < s.entities.length
  cached : ∀ key id, (key, some id) ∈ s.cache.entries → s.key? id = some key
  pinned : ∀ key, key ∈ s.cache.pinned ↔ ∃ id ∈ s.dirty, s.key? id = some key
  held : ∀ key ∈ s.cache.pinned, ∃ id ∈ s.dirty, (key, some id) ∈ s.cache.entries

theorem PinsDirty.keyed (h : PinsDirty size s) : Keyed s :=
  ⟨h.bounded, h.known, h.cached⟩

theorem Keyed.pinsDirty (h : Keyed s) (hmaxSize : s.cache.maxSize = size)
    (hpinned : ∀ key, key ∈ s.cache.pinned ↔ ∃ id ∈ s.dirty, s.key? id = some key)
    (hheld : ∀ key ∈ s.cache.pinned, ∃ id ∈ s.dirty, (key, some id) ∈ s.cache.entries) :
    PinsDirty size s :=
  ⟨h.bounded, hmaxSize, h.known, h.cached, hpinned, hheld⟩

theorem pinsDirty_ofStore (store : σ) (suffixes : Suffixes) (size : Nat) :
    PinsDirty size (.ofStore store suffixes size) := by
  refine (keyed_ofStore store suffixes size).pinsDirty rfl (fun key => ?_) fun key hkey => ?_
  · simp [ofStore, Cache.ofSize]
  · exact absurd hkey List.not_mem_nil

/-- What happens to the values of entities does not matter. -/
theorem PinsDirty.congr (h : PinsDirty size s) (hcache : s'.cache = s.cache)
    (hdirty : s'.dirty = s.dirty) (hkey : ∀ id, s'.key? id = s.key? id)
    (hlength : s'.entities.length = s.entities.length) : PinsDirty size s' := by
  refine (h.keyed.congr hcache hdirty hkey hlength).pinsDirty (hcache ▸ h.maxSize) ?_ ?_
  · simpa only [hcache, hdirty, hkey] using h.pinned
  · rw [hcache, hdirty]
    exact h.held

theorem PinsDirty.setEntity (h : PinsDirty size s) (he : s.entity? id = some e)
    (hkey : after.key = e.key) : PinsDirty size (s.setEntity id after) :=
  h.congr rfl rfl (key?_setEntity he hkey) List.length_set

/-- A pinned key is found. -/
theorem PinsDirty.peek_of_pinned (h : PinsDirty size s) (hkey : key ∈ s.cache.pinned) :
    ∃ id ∈ s.dirty, s.cache.peek key = some id := by
  obtain ⟨id, hid, hentry⟩ := h.held key hkey
  exact ⟨id, hid, Cache.peek_of_mem h.bounded.keys_nodup hentry⟩

/-! ### Keeping a new entity -/

/-- Pins follow the dirty entities, but the cache may have a clean entity under one of the keys. -/
structure PinsBut (size : Nat) (own : String × String) (s : Session σ) : Prop where
  keyed : Keyed s
  maxSize : s.cache.maxSize = size
  pinned : ∀ key, key ∈ s.cache.pinned ↔ ∃ id ∈ s.dirty, s.key? id = some key
  held : ∀ key ∈ s.cache.pinned, key ≠ own → ∃ id ∈ s.dirty, (key, some id) ∈ s.cache.entries

theorem PinsDirty.but (h : PinsDirty size s) (own : String × String) : PinsBut size own s :=
  ⟨h.keyed, h.maxSize, h.pinned, fun key hkey _ => h.held key hkey⟩

theorem PinsBut.pinsDirty (h : PinsBut size key s) (hfree : key ∉ s.cache.pinned) :
    PinsDirty size s :=
  h.keyed.pinsDirty h.maxSize h.pinned fun k hk => h.held k hk fun heq => hfree (heq ▸ hk)

/-- A new entity may take the place of a dirty one of its key, which it does not leave unpinned. -/
theorem PinsDirty.addEntity_but (h : PinsDirty size s) (e : Entity) :
    PinsBut size e.key (s.addEntity e).2 := by
  have hold : ∀ id ∈ s.dirty, (s.addEntity e).2.key? id = s.key? id := by
    intro id hid
    rw [key?_addEntity, if_neg (Nat.ne_of_lt (h.known id hid))]
  refine ⟨h.keyed.addEntity e, h.maxSize, fun key => ?_, fun key hkey hne => ?_⟩
  · refine (h.pinned key).trans (exists_congr fun id => and_congr_right fun hid => ?_)
    rw [hold id hid]
  · obtain ⟨id, hid, hentry⟩ := h.held key hkey
    exact ⟨id, hid, Cache.mem_put_of_pinned hkey hne hentry⟩

theorem PinsDirty.addEntity (h : PinsDirty size s) (hfree : e.key ∉ s.cache.pinned) :
    PinsDirty size (s.addEntity e).2 :=
  (h.addEntity_but e).pinsDirty hfree

/-! ### Loading -/

theorem PinsDirty.cached_touched (h : PinsDirty size s) (t : EntityType) (uri : String) :
    PinsDirty size (s.cached t uri).2 := by
  have hpins := Cache.get_pinned s.cache (t.name, uri)
  refine (h.keyed.cached_touched t uri).pinsDirty ?_ (fun key => ?_) fun key hkey => ?_
  · exact (Cache.get_maxSize _ _).trans h.maxSize
  · exact hpins ▸ h.pinned key
  · obtain ⟨id, hid, hentry⟩ := h.held key (hpins ▸ hkey)
    exact ⟨id, hid, (h.bounded.perm_get (t.name, uri)).mem_iff.mpr hentry⟩

/-- A pinned key is found, so no new entity comes under it. -/
theorem loadInvariant_pinsDirty : LoadInvariant fun s : Session σ => PinsDirty size s where
  congr h hcache hentities hdirty :=
    h.congr hcache hdirty (key?_congr hentities) (congrArg List.length hentities)
  cached h t uri := h.cached_touched t uri
  refresh h he _ := h.setEntity he rfl
  addEntity h hnone := by
    refine h.addEntity fun hpinned => ?_
    obtain ⟨id, -, hpeek⟩ := h.peek_of_pinned hpinned
    rw [hnone] at hpeek
    contradiction

/-! ### Recording -/

variable {cache : Cache (String × String) EntityId}

theorem maxSize_pinEntity (cache : Cache (String × String) EntityId) (key : String × String)
    (id : EntityId) : (pinEntity cache key id).maxSize = cache.maxSize := by
  rcases pinEntity_cases cache key id with ⟨-, heq⟩ | heq
  · rw [heq]
    exact Cache.get_maxSize cache key
  · rw [heq]
    exact Cache.get_maxSize cache key

theorem mem_pinned_pinEntity :
    k ∈ (pinEntity cache key id).pinned ↔ k ∈ cache.pinned ∨ k = key := by
  rcases pinEntity_cases cache key id with ⟨-, heq⟩ | heq
  · rw [heq, Cache.mem_withPin, Cache.get_pinned]
  · rw [heq, Cache.mem_put_pinned, Cache.get_pinned]

theorem mem_pinEntity_self (cache : Cache (String × String) EntityId) (key : String × String)
    (id : EntityId) : (key, some id) ∈ (pinEntity cache key id).entries := by
  rcases pinEntity_cases cache key id with ⟨hmem, heq⟩ | heq
  · rw [heq]
    exact hmem
  · rw [heq]
    exact Cache.mem_put_self _ key (some id)

theorem mem_pinEntity_of_pinned (h : cache.Bounded) (hpinned : k ∈ cache.pinned) (hne : k ≠ key)
    (hentry : (k, some other) ∈ cache.entries) :
    (k, some other) ∈ (pinEntity cache key id).entries := by
  have htouched := (h.perm_get key).mem_iff.mpr hentry
  rcases pinEntity_cases cache key id with ⟨-, heq⟩ | heq
  · rw [heq]
    exact htouched
  · rw [heq]
    exact Cache.mem_put_of_pinned ((Cache.get_pinned cache key).symm ▸ hpinned) hne htouched

/-- The entity that records has its place in the cache again, whichever was there. -/
theorem PinsBut.record (h : PinsBut size e.key s) (he : s.entity? id = some e) (c : Change) :
    PinsDirty size (s.record id c) := by
  have hkeyed := h.keyed.record id c
  rw [record_eq he] at hkeyed ⊢
  refine hkeyed.pinsDirty ?_ (fun key => ?_) fun key hkey => ?_
  · exact (maxSize_pinEntity s.cache e.key id).trans h.maxSize
  · rw [mem_pinned_pinEntity, h.pinned]
    constructor
    · rintro (⟨other, hother, hkey⟩ | rfl)
      · exact ⟨other, mem_withId.mpr (Or.inl hother), hkey⟩
      · exact ⟨id, mem_withId.mpr (Or.inr rfl), key?_eq he⟩
    · rintro ⟨other, hother, hkey⟩
      rcases mem_withId.mp hother with hother | rfl
      · exact Or.inl ⟨other, hother, hkey⟩
      · have hown : s.key? other = some key := hkey
        exact Or.inr (Option.some.inj (hown.symm.trans (key?_eq he)))
  · by_cases hown : key = e.key
    · exact ⟨id, mem_withId.mpr (Or.inr rfl), hown ▸ mem_pinEntity_self s.cache e.key id⟩
    · have hold := (mem_pinned_pinEntity.mp hkey).resolve_right hown
      obtain ⟨other, hother, hentry⟩ := h.held key hold hown
      exact ⟨other, mem_withId.mpr (Or.inl hother),
        mem_pinEntity_of_pinned h.keyed.bounded hold hown hentry⟩

theorem PinsDirty.record (h : PinsDirty size s) (he : s.entity? id = some e) (c : Change) :
    PinsDirty size (s.record id c) :=
  (h.but e.key).record he c

theorem PinsDirty.keepCreated (h : PinsDirty size s) (t : EntityType) (uri : String) (d : Draft) :
    PinsDirty size (s.keepCreated t uri d).2 := by
  have hnew := (entity?_addEntity s (.created t uri d.state) s.entities.length).trans (if_pos rfl)
  exact (h.addEntity_but (.created t uri d.state)).record hnew _

theorem PinsDirty.steps {m : Mutation} (h : PinsDirty size s) (hsteps : m.Steps s s') :
    PinsDirty size s' := by
  cases hsteps with
  | refused m suffixes => exact h.congr rfl rfl (fun _ => rfl) rfl
  | @changed m e after c he hafter hvalue =>
      obtain ⟨htype, huri, -, -⟩ := hafter.keeps
      have hkey : after.key = e.key := by rw [Entity.key, Entity.key, htype, huri]
      have hentity := (entity?_setEntity s he after (m.author s)).trans (if_pos rfl)
      exact (h.setEntity he hkey).record hentity c
  | @created t values d hdraft =>
      have hnext : PinsDirty size { s with suffixes := s.suffixes.next.2 } :=
        h.congr rfl rfl (fun _ => rfl) rfl
      exact hnext.keepCreated t (s.freshIri t) d

/-! ### Commits and rollbacks -/

/-- Where all entities are clean nothing is pinned. -/
theorem Keyed.pinsDirty_of_clean (h : Keyed s) (hmaxSize : s.cache.maxSize = size)
    (hdirty : s.dirty = []) (hpinned : s.cache.pinned = []) : PinsDirty size s :=
  h.pinsDirty hmaxSize (by simp [hdirty, hpinned]) (by simp [hpinned])

/-- The cache is bounded, whatever is pinned in it. -/
def Fits (size : Nat) (s : Session σ) : Prop :=
  s.cache.Bounded ∧ s.cache.maxSize = size

theorem Fits.release (h : Fits size s) (e : Entity) : Fits size (s.release e) := by
  unfold Session.release
  cases e.deleted with
  | true => exact ⟨h.1.discard e.key, h.2⟩
  | false => exact ⟨h.1.unpin e.key, h.2⟩

theorem Fits.settle (h : Fits size s) (committed : EntityId × EntityState) :
    Fits size (s.settle committed) := by
  unfold Session.settle
  dsimp only
  split
  · split
    · exact h
    · exact h
  · unfold Session.markCommitted
    split
    · exact h
    · next e he => exact Fits.release (s := { s with dirty := _ }) h e

theorem Fits.rollbackEntity (h : Fits size s) (id : EntityId) :
    Fits size (s.rollbackEntity id) := by
  unfold Session.rollbackEntity
  split
  · exact h
  · next e he => exact Fits.release (s := Session.setEntity { s with dirty := _ } id e.revert) h _

theorem fits_foldl {ι : Type} {f : Session σ → ι → Session σ}
    (hf : ∀ {s : Session σ}, Fits size s → ∀ i, Fits size (f s i)) (h : Fits size s)
    (is : List ι) : Fits size (is.foldl f s) := by
  induction is generalizing s with
  | nil => exact h
  | cons i is ih => exact ih (hf h i)

theorem Fits.endCommit (h : Fits size s) (c : Commit) (outcome : Outcome) :
    Fits size (s.endCommit c outcome).2 := by
  unfold Session.endCommit
  rcases s.journal.finish c.batch outcome with ⟨cause | changes, journal⟩
  · exact h
  · have hjournal : Fits size { s with journal := journal } := h
    exact fits_foldl (fun h committed => h.settle committed) hjournal c.states

/-- Settling all dirty entities, of which none changed meanwhile, leaves none dirty and no pin. -/
theorem PinsDirty.settled {states : EntityId → EntityState} (h : PinsDirty size s)
    (hkeyed : Keyed s') (hfits : Fits size s') (hredirtied : s.redirtied = [])
    (hsettled : Settled s states s.dirty s') : PinsDirty size s' := by
  apply hkeyed.pinsDirty_of_clean hfits.2
  · apply List.eq_nil_iff_forall_not_mem.mpr
    intro id hid
    obtain ⟨hdirty, hagain⟩ := (hsettled.dirty id).mp hid
    have hmem := hagain hdirty
    rw [hredirtied] at hmem
    contradiction
  · apply List.eq_nil_iff_forall_not_mem.mpr
    intro key hkey
    obtain ⟨hpinned, hreleased⟩ := hsettled.pinned key hkey
    obtain ⟨id, hid, hown⟩ := (h.pinned key).mp hpinned
    obtain ⟨e, he, heq⟩ := Option.map_eq_some_iff.mp hown
    have hclean : id ∉ s.redirtied := by simp [hredirtied]
    exact hreleased id hid hclean e he heq

theorem PinsDirty.endCommit (h : PinsDirty size s) {c : Commit} (hredirtied : s.redirtied = [])
    (hstates : c.states = s.dirtyStates) (outcome : Outcome) :
    PinsDirty size (s.endCommit c outcome).2 := by
  by_cases haccepted : outcome = .accepted
  · subst haccepted
    obtain ⟨settled, hended, hsettled⟩ := endCommit_of_accepted h.known hstates
    have hkeyed := h.keyed.endCommit c .accepted
    have hfits := Fits.endCommit ⟨h.bounded, h.maxSize⟩ c .accepted
    rw [hended] at hkeyed hfits ⊢
    have hfinished : PinsDirty size
        { s with journal := ⟨s.journal.changes.drop c.batch.changes.length, false⟩ } :=
      h.congr rfl rfl (fun _ => rfl) rfl
    have hpins : PinsDirty size settled :=
      hfinished.settled (hkeyed.congr rfl rfl (fun _ => rfl) rfl) hfits hredirtied hsettled
    exact hpins.congr rfl rfl (fun _ => rfl) rfl
  · obtain ⟨cause, hfailed⟩ := endCommit_of_failed haccepted s c
    rw [hfailed]
    exact h.congr rfl rfl (fun _ => rfl) rfl

theorem PinsDirty.rollback (h : PinsDirty size s) : PinsDirty size s.rollback := by
  have hrolled := rolledBack_rollback h.known
  have hfits : Fits size s.rollback := by
    refine fits_foldl (fun h id => h.rollbackEntity id) ?_ s.dirty
    exact ⟨h.bounded, h.maxSize⟩
  apply h.keyed.rollback.pinsDirty_of_clean hfits.2
  · exact rollback_dirty h.known
  · apply List.eq_nil_iff_forall_not_mem.mpr
    intro key hkey
    obtain ⟨hpinned, hreleased⟩ := hrolled.pinned key hkey
    obtain ⟨id, hid, hown⟩ := (h.pinned key).mp hpinned
    obtain ⟨e, he, heq⟩ := Option.map_eq_some_iff.mp hown
    exact hreleased id hid e he heq

/-- A commit whose request is served by the store alone. -/
def commitServed (s : Session σ) (serve : String → σ → Outcome × σ) :
    Except CommitError Nat × Session σ :=
  s.commitWith fun text s =>
    let (outcome, store) := serve text s.store
    (outcome, { s with store := store })

theorem PinsDirty.commitServed (h : PinsDirty size s) (serve : String → σ → Outcome × σ) :
    PinsDirty size (s.commitServed serve).2 := by
  have hbegins := s.beginCommit_begins
  unfold Session.commitServed commitWith
  generalize s.beginCommit = began at hbegins ⊢
  cases hbegins with
  | idle hempty => exact h
  | refused e => exact h.congr rfl rfl (fun _ => rfl) rfl
  | begun c hsome hchanges hupdate hstates =>
      dsimp only
      generalize serve c.batch.update s.underway.store = served
      obtain ⟨outcome, store⟩ := served
      have hback : PinsDirty size { s.underway with store := store } :=
        h.congr rfl rfl (fun _ => rfl) rfl
      exact hback.endCommit rfl hstates outcome

/-- What is done with a session, where nothing is done with it while a request is on its way. -/
inductive Call (σ : Type) where
  /-- Loads, mutations, registrations, listeners that come and go, and changes of the store. -/
  | act (a : Action σ)
  /-- Reads a property, with the entities that it refers to. -/
  | get (id : EntityId) (name : String)
  /-- Commits, with what the store makes of the update. -/
  | commit (serve : String → σ → Outcome × σ)
  | rollback

variable [GraphStore σ]

namespace Call

/-- The session after a call. -/
def run (s : Session σ) : Call σ → Session σ
  | .act a => a.run s
  | .get id name => (s.get id name).2
  | .commit serve => (s.commitServed serve).2
  | .rollback => s.rollback

/-- The session after several calls. -/
def runAll (s : Session σ) (calls : List (Call σ)) : Session σ :=
  calls.foldl run s

/-- A commit to the store is one that the store serves as it serves updates. -/
example (s : Session σ) :
    run s (.commit fun text store =>
      let (result, store) := GraphStore.update text store
      (Outcome.ofResult result, store)) = s.commit.2 := rfl

end Call

theorem PinsDirty.act (h : PinsDirty size s) (a : Action σ) : PinsDirty size (a.run s) := by
  cases a with
  | mutate m => exact h.steps (m.run_steps s)
  | select t text => exact loadInvariant_pinsDirty.loadText h t text
  | load t uri => exact loadInvariant_pinsDirty.load h t uri
  | register t => exact h.congr rfl rfl (fun _ => rfl) rfl
  | listen f => exact h.congr rfl rfl (fun _ => rfl) rfl
  | store f => exact h.congr rfl rfl (fun _ => rfl) rfl

theorem pinsDirty_call (h : PinsDirty size s) (call : Call σ) : PinsDirty size (call.run s) := by
  cases call with
  | act a => exact h.act a
  | get id name => exact loadInvariant_pinsDirty.get h id name
  | commit serve => exact h.commitServed serve
  | rollback => exact h.rollback

theorem pinsDirty_runAll (h : PinsDirty size s) (calls : List (Call σ)) :
    PinsDirty size (Call.runAll s calls) := by
  induction calls generalizing s with
  | nil => exact h
  | cons call calls ih => exact ih (pinsDirty_call h call)

/-- Whatever is done with a session, the keys of its dirty entities, and no others, are pinned in
its cache.  The cache has a dirty entity of that key under each of them, and of the entries without
a pin it keeps no more than it was made for. -/
theorem pinned_iff_dirty (store : σ) (suffixes : Suffixes) (cacheSize : Nat)
    (calls : List (Call σ)) :
    let s := Call.runAll (.ofStore store suffixes cacheSize) calls
    (∀ key, key ∈ s.cache.pinned ↔ ∃ id ∈ s.dirty, ∃ e, s.entity? id = some e ∧ e.key = key) ∧
      (∀ key ∈ s.cache.pinned, s.cache.contains key = true ∧
        ∃ id ∈ s.dirty, s.cache.peek key = some id ∧
          ∃ e, s.entity? id = some e ∧ e.key = key) ∧
      s.cache.unpinned.length ≤ cacheSize := by
  intro s
  have h : PinsDirty cacheSize s :=
    pinsDirty_runAll (pinsDirty_ofStore store suffixes cacheSize) calls
  refine ⟨fun key => ?_, fun key hkey => ?_, ?_⟩
  · refine (h.pinned key).trans (exists_congr fun id => and_congr_right fun _ => ?_)
    exact Option.map_eq_some_iff
  · obtain ⟨id, hid, hentry⟩ := h.held key hkey
    refine ⟨Cache.contains_iff.mpr ⟨_, hentry, rfl⟩, id, hid,
      Cache.peek_of_mem h.bounded.keys_nodup hentry, ?_⟩
    exact Option.map_eq_some_iff.mp (h.cached key id hentry)
  · exact Nat.le_trans h.bounded.bound (Nat.le_of_eq h.maxSize)

end Session

end EntityMapping
