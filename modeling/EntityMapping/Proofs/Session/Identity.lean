import EntityMapping.Proofs.Session.Episode
import EntityMapping.Proofs.Session.Lookup

/-!
One dirty entity of each key.

A session may hold two entities of one key, since one that left the cache is loaded again as
another.  While one of them is dirty, it is pinned: every load of its key gives it, and a commit
that ends takes its pin away only together with its changes.  What can go wrong is that somebody
still has the other one, and mutates it.  Then this one takes the place in the cache, and both are
dirty.
-/

namespace EntityMapping

namespace Session

variable {σ : Type} {s s' : Session σ} {size : Nat} {id other : EntityId}
  {e : Entity} {key : String × String} {queue nodes : List (EntityId × Change)}

/-- No two dirty entities have the same key. -/
def SingleDirty (s : Session σ) : Prop :=
  ∀ id ∈ s.dirty, ∀ other ∈ s.dirty, s.key? id = s.key? other → id = other

/-! ### Keys -/

theorem Loads.key?_eq {ids : List EntityId} (h : Loads s ids s') (hid : id < s.entities.length) :
    s'.key? id = s.key? id := by
  induction h with
  | nothing => rfl
  | quiet hquiet _ ih =>
      rw [ih (hquiet.entities ▸ hid), key?, entity?, hquiet.entities]
      rfl
  | kept _ _ ih => exact ih hid
  | unknown _ _ _ ih => exact ih hid
  | @refresh _ _ _ _ e he _ _ state _ ih =>
      have hkey : (e.refresh state).key = e.key := rfl
      exact (ih (by simpa [setEntity] using hid)).trans (key?_setEntity he hkey id)
  | add _ _ _ _ ih =>
      rw [ih (by simpa [addEntity] using Nat.lt_succ_of_lt hid), key?_addEntity,
        if_neg (Nat.ne_of_lt hid)]

theorem key?_record (s : Session σ) (id : EntityId) (c : Change) (other : EntityId) :
    (s.record id c).key? other = s.key? other := by
  rw [key?, entity?_record]
  rfl

theorem key?_steps {m : Mutation} (h : m.Steps s s') (hid : id < s.entities.length) :
    s'.key? id = s.key? id := by
  cases h with
  | refused m suffixes => rfl
  | changed he hafter hvalue =>
      obtain ⟨htype, huri, -, -⟩ := hafter.keeps
      rw [key?_record, key?_setEntity he (by rw [Entity.key, Entity.key, htype, huri])]
  | created hdraft =>
      refine (key?_record _ _ _ id).trans ((key?_addEntity _ _ id).trans ?_)
      exact if_neg (Nat.ne_of_lt hid)

/-- Entities keep their keys. -/
theorem key?_run [GraphStore σ] (a : Action σ) (hid : id < s.entities.length) :
    (a.run s).key? id = s.key? id := by
  cases a with
  | mutate m => exact key?_steps (m.run_steps s) hid
  | select t text => exact (loads_loadText s t text).key?_eq hid
  | load t uri => exact (loads_load s t uri).key?_eq hid
  | register t => rfl
  | listen f => rfl
  | store f => rfl

theorem exists_key? (hid : id < s.entities.length) : ∃ key, s.key? id = some key := by
  obtain ⟨e, he⟩ := exists_entity? hid
  exact ⟨e.key, key?_eq he⟩

/-! ### Loading what is dirty -/

/-- The cache has a dirty entity under its key. -/
theorem PinsDirty.peek_of_dirty (h : PinsDirty size s) (hsingle : s.SingleDirty)
    (hid : id ∈ s.dirty) (hkey : s.key? id = some key) : s.cache.peek key = some id := by
  obtain ⟨found, hfound, hpeek⟩ := h.peek_of_pinned ((h.pinned key).mpr ⟨id, hid, hkey⟩)
  have hown := h.cached key found (Cache.mem_of_peek hpeek)
  rw [hpeek, hsingle found hfound id hid (hown.trans hkey.symm)]

theorem SingleDirty.congr (h : s.SingleDirty) (hdirty : ∀ id, id ∈ s'.dirty → id ∈ s.dirty)
    (hkey : ∀ id ∈ s.dirty, s'.key? id = s.key? id) : s'.SingleDirty := by
  intro id hid other hother heq
  rw [hkey id (hdirty id hid), hkey other (hdirty other hother)] at heq
  exact h id (hdirty id hid) other (hdirty other hother) heq

/-- A pinned entity stays in the cache. -/
theorem pinned_instantiate (h : Keyed s) (hentry : (key, some id) ∈ s.cache.entries)
    (hpinned : key ∈ s.cache.pinned) (t : EntityType) (uri : String) (rows : List Row) :
    (key, some id) ∈ (s.instantiate t uri rows).2.cache.entries ∧
      key ∈ (s.instantiate t uri rows).2.cache.pinned := by
  have hcache := cache_foldl_notify s (t.violationsIn uri rows)
  obtain ⟨found, -, hmade⟩ | ⟨hpeek, hmade⟩ := s.instantiate_cases t uri rows
  · have htouched := (h.bounded.perm_get (t.name, uri)).mem_iff.mpr hentry
    have hpins := Cache.get_pinned s.cache (t.name, uri)
    rw [← hcache] at htouched hpins
    rw [hmade, refresh_eq]
    exact ⟨htouched, hpins ▸ hcache ▸ hpinned⟩
  · have hne : key ≠ (t.name, uri) := by
      rintro rfl
      rw [Cache.peek_of_mem h.bounded.keys_nodup hentry] at hpeek
      contradiction
    rw [← hcache] at hentry hpinned
    rw [hmade]
    exact ⟨Cache.mem_put_of_pinned hpinned hne hentry, hpinned⟩

/-- Rows give the pinned entity of a key, and no other one of this key. -/
theorem eq_of_pinned (h : Keyed s) (hentry : (key, some id) ∈ s.cache.entries)
    (hpinned : key ∈ s.cache.pinned) (t : EntityType) (rows : List Row) (uris : List String) :
    ∀ other ∈ (s.instantiateAll t rows uris).1,
      (s.instantiateAll t rows uris).2.key? other = some key → other = id := by
  induction uris generalizing s with
  | nil => exact fun other hother => absurd hother List.not_mem_nil
  | cons uri rest ih =>
      obtain ⟨hlater, hstill⟩ := pinned_instantiate h hentry hpinned t uri (t.rowsAbout uri rows)
      have hnext := h.instantiate t uri (t.rowsAbout uri rows)
      intro other hother hown
      rw [instantiateAll_cons] at hother hown
      rcases List.mem_cons.mp hother with rfl | hother
      · -- the entity has the key of its own rows, from its step on
        have hmade := made_instantiate h t (fun _ => t.rowsAbout uri rows) uri
        have hfirst := (List.cons.inj hmade.keys).1
        have hkeyed := (loads_instantiateAll _ t rows rest).key?_eq (lt_of_key? hfirst)
        obtain rfl := Option.some.inj ((hkeyed.trans hfirst).symm.trans hown)
        have hpeek := Cache.peek_of_mem h.bounded.keys_nodup hentry
        obtain ⟨found, hfound, hstep⟩ | ⟨hnone, -⟩ :=
          s.instantiate_cases t uri (t.rowsAbout uri rows)
        · rw [hstep]
          exact Option.some.inj (hfound.symm.trans hpeek)
        · rw [hpeek] at hnone
          contradiction
      · exact ih hnext hlater hstill other hother hown

/-- Among the entities that are made of rows, only the dirty one has its key. -/
theorem PinsDirty.instantiateAll_of_dirty (h : PinsDirty size s) (hsingle : s.SingleDirty)
    (hid : id ∈ s.dirty) (hkey : s.key? id = some key) (t : EntityType) (rows : List Row)
    (uris : List String) :
    ∀ other ∈ (s.instantiateAll t rows uris).1,
      (s.instantiateAll t rows uris).2.key? other = some key → other = id := by
  have hentry := Cache.mem_of_peek (h.peek_of_dirty hsingle hid hkey)
  exact eq_of_pinned h.keyed hentry ((h.pinned key).mpr ⟨id, hid, hkey⟩) t rows uris

variable [GraphStore σ]

theorem PinsDirty.loadText_of_dirty (h : PinsDirty size s) (hsingle : s.SingleDirty)
    (hid : id ∈ s.dirty) (hkey : s.key? id = some key) {t : EntityType} {text : String}
    {ids : List EntityId} {after : Session σ} (hload : s.loadText t text = (.ok ids, after)) :
    ∀ other ∈ ids, after.key? other = some key → other = id := by
  have hasked : PinsDirty size (s.ask text).2 := h.congr rfl rfl (fun _ => rfl) rfl
  obtain ⟨cause, -, hmade⟩ | ⟨rows, -, hmade⟩ := s.loadText_cases t text
  · rw [hmade] at hload
    cases hload
  · rw [hmade] at hload
    obtain ⟨hids, rfl⟩ := Prod.mk.inj hload
    obtain rfl := Except.ok.inj hids
    exact PinsDirty.instantiateAll_of_dirty hasked hsingle hid hkey t rows _

/-- A load of the key of a dirty entity gives that entity. -/
theorem PinsDirty.load_of_dirty (h : PinsDirty size s) (hsingle : s.SingleDirty)
    (hid : id ∈ s.dirty) {t : EntityType} {uri : String}
    (hkey : s.key? id = some (t.name, uri)) :
    s.load t uri = (.ok (some id), (s.cached t uri).2) := by
  rw [load, cached_of_present (h.peek_of_dirty hsingle hid hkey)]

end Session

/-! ### Commits -/

namespace Session

variable {σ : Type} {s s' : Session σ} {size : Nat} {id other : EntityId} {e : Entity}

/-- What a released entity leaves alone in the cache: the other pins, and what they are on. -/
theorem release_keeps (s : Session σ) (e : Entity) :
    (∀ key, key ∈ (s.release e).cache.pinned ↔ key ∈ s.cache.pinned ∧ key ≠ e.key) ∧
      ∀ entry ∈ s.cache.entries, entry.1 ∈ s.cache.pinned → entry.1 ≠ e.key →
        entry ∈ (s.release e).cache.entries := by
  unfold release
  cases e.deleted with
  | true =>
      exact ⟨fun key => Cache.mem_discard_pinned,
        fun entry hentry _ hne => Cache.mem_discard.mpr ⟨hentry, hne⟩⟩
  | false =>
      refine ⟨fun key => Cache.mem_unpin_pinned, fun entry hentry hpinned hne => ?_⟩
      refine Cache.mem_evict_of_pinned ?_ hentry
      exact List.mem_filter.mpr ⟨hpinned, by simpa using hne⟩

/-- Of an entity that alone among the dirty ones has its key, the pin goes with the changes. -/
theorem PinsDirty.release (h : PinsDirty size s) (he : s.entity? id = some e)
    (halone : ∀ other ∈ s.dirty, s.key? other = s.key? id → other = id) :
    PinsDirty size ({ s with dirty := s.dirty.filter (· ≠ id) }.release e) := by
  have hdirty : ∀ other, other ∈ s.dirty.filter (· ≠ id) ↔ other ∈ s.dirty ∧ other ≠ id := by
    simp
  have hfits : Fits size { s with dirty := s.dirty.filter (· ≠ id) } := ⟨h.bounded, h.maxSize⟩
  obtain ⟨hpinned, hentries⟩ := release_keeps { s with dirty := s.dirty.filter (· ≠ id) } e
  refine ((h.keyed.clean id).release e).pinsDirty (hfits.release e).2 ?_ ?_
  · intro key
    rw [hpinned, h.pinned]
    constructor
    · rintro ⟨⟨other, hother, hkey⟩, hne⟩
      refine ⟨other, (hdirty other).mpr ⟨hother, ?_⟩, hkey⟩
      rintro rfl
      exact hne (Option.some.inj (hkey.symm.trans (key?_eq he)))
    · rintro ⟨other, hother, hkey⟩
      obtain ⟨hmem, hne⟩ := (hdirty other).mp hother
      refine ⟨⟨other, hmem, hkey⟩, ?_⟩
      rintro rfl
      exact hne (halone other hmem (hkey.trans (key?_eq he).symm))
  · intro key hkey
    obtain ⟨hold, hne⟩ := (hpinned key).mp hkey
    obtain ⟨other, hother, hentry⟩ := h.held key hold
    refine ⟨other, (hdirty other).mpr ⟨hother, ?_⟩, hentries _ hentry hold hne⟩
    rintro rfl
    exact hne (Option.some.inj ((h.cached key other hentry).symm.trans (key?_eq he)))

theorem PinsDirty.settle (h : PinsDirty size s) (hid : id < s.entities.length)
    (halone : ∀ other ∈ s.dirty, s.key? other = s.key? id → other = id) (state : EntityState) :
    PinsDirty size (s.settle (id, state)) := by
  obtain ⟨e, he⟩ := exists_entity? hid
  by_cases hredirtied : id ∈ s.redirtied
  · rw [settle_of_redirtied hredirtied he]
    exact h.setEntity he rfl
  · rw [settle_of_clean hredirtied he]
    exact PinsDirty.setEntity (h.release he halone) he rfl

theorem Settled.key?_eq {states : EntityId → EntityState} {ids : List EntityId}
    (h : Settled s states ids s') (id : EntityId) : s'.key? id = s.key? id := by
  rw [key?, h.entity, Option.map_map]
  refine congrArg (Option.map · _) (funext fun e => ?_)
  change Entity.key (if _ then _ else _) = _
  split <;> rfl

/-- Settling one entity after the other takes each pin away with the changes, also where some of the
entities have changed again. -/
theorem PinsDirty.settleAll (h : PinsDirty size s) (states : EntityId → EntityState)
    {ids : List EntityId} (hknown : ∀ id ∈ ids, id < s.entities.length)
    (halone : ∀ id ∈ ids, ∀ other ∈ s.dirty, s.key? other = s.key? id → other = id) :
    PinsDirty size ((ids.map fun id => (id, states id)).foldl Session.settle s) := by
  induction ids generalizing s with
  | nil => exact h
  | cons id ids ih =>
      have hid := hknown id List.mem_cons_self
      have hsettled := settled_settle states hid
      refine ih (h.settle hid (halone id List.mem_cons_self) (states id)) ?_ ?_
      · intro other hother
        exact (hsettled.known other).mpr (hknown other (List.mem_cons_of_mem _ hother))
      · intro first hfirst other hother hkey
        rw [hsettled.key?_eq, hsettled.key?_eq] at hkey
        exact halone first (List.mem_cons_of_mem _ hfirst) other
          ((hsettled.dirty other).mp hother).1 hkey

/-- A commit that ends leaves one dirty entity of each key if there was one when its answer came. -/
theorem PinsDirty.endCommit_single (h : PinsDirty size s) (hsingle : s.SingleDirty)
    {begun : Session σ} (hbegun : ∀ id ∈ begun.dirty, id ∈ s.dirty) {c : Commit}
    (hstates : c.states = begun.dirtyStates) (outcome : Outcome) :
    PinsDirty size (s.endCommit c outcome).2 ∧ (s.endCommit c outcome).2.SingleDirty := by
  by_cases haccepted : outcome = .accepted
  · subst haccepted
    let finished := { s with journal :=
      ⟨s.journal.changes.drop c.batch.changes.length, false⟩ }
    have hknown : ∀ id ∈ begun.dirty, id < finished.entities.length := fun id hid =>
      h.known id (hbegun id hid)
    have hfinished : PinsDirty size finished := h.congr rfl rfl (fun _ => rfl) rfl
    have hended : (s.endCommit c .accepted).2 =
        { c.states.foldl Session.settle finished with redirtied := [] } := rfl
    have hsettled := settled_foldl finished (fun id => (begun.entity? id).elim [] Entity.values)
      hknown
    have hpins := hfinished.settleAll (fun id => (begun.entity? id).elim [] Entity.values) hknown
      fun id hid other hother hkey => hsingle other hother id (hbegun id hid) hkey
    rw [hended, hstates]
    refine ⟨hpins.congr rfl rfl (fun _ => rfl) rfl, ?_⟩
    exact SingleDirty.congr hsingle (fun id hid => ((hsettled.dirty id).mp hid).1) fun id _ =>
      hsettled.key?_eq id
  · obtain ⟨cause, hfailed⟩ := endCommit_of_failed haccepted s c
    rw [hfailed]
    exact ⟨h.congr rfl rfl (fun _ => rfl) rfl, hsingle⟩

end Session

/-! ### Actions -/

namespace Action

variable {σ : Type} [GraphStore σ] {s : Session σ} {size : Nat}

/-- Whether an action records a change of an entity in whose place the cache has another dirty
one. -/
def Displaces (s : Session σ) (a : Action σ) : Prop :=
  ∃ node ∈ a.recorded s, ∃ key, (a.run s).key? node.1 = some key ∧
    ∃ other ∈ s.dirty, other ≠ node.1 ∧ s.cache.peek key = some other

omit [GraphStore σ] in
/-- An action records for one entity only. -/
theorem author_unique (a : Action σ) :
    ∀ node ∈ a.recorded s, ∀ other ∈ a.recorded s, node.1 = other.1 := by
  cases a with
  | mutate m =>
      intro node hnode other hother
      obtain ⟨_, -, rfl⟩ := List.mem_map.mp hnode
      obtain ⟨_, -, rfl⟩ := List.mem_map.mp hother
      rfl
  | _ => exact fun node hnode => absurd hnode List.not_mem_nil

/-- An action leaves one dirty entity of each key exactly if it displaces none. -/
theorem singleDirty_run_iff (h : s.PinsDirty size) (hsingle : s.SingleDirty) (a : Action σ) :
    (a.run s).SingleDirty ↔ ¬ a.Displaces s := by
  have hrecords := a.records_run s
  have hkept : ∀ id ∈ s.dirty, (a.run s).key? id = s.key? id := fun id hid =>
    s.key?_run a (h.known id hid)
  constructor
  · rintro hafter ⟨node, hnode, key, hkey, other, hother, hne, hpeek⟩
    have hown := h.cached key other (Cache.mem_of_peek hpeek)
    apply hne
    apply hafter other ((hrecords.dirty other).mpr (Or.inl hother)) node.1
      ((hrecords.dirty node.1).mpr (Or.inr (List.mem_map_of_mem hnode)))
    rw [hkept other hother, hown, hkey]
  · intro hyields
    -- a recording entity with the key of another dirty one would have displaced it
    have hnew : ∀ node ∈ a.recorded s, ∀ other ∈ s.dirty,
        (a.run s).key? node.1 = (a.run s).key? other → node.1 = other := by
      intro node hnode other hother heq
      by_contra hne
      obtain ⟨key, hkey⟩ := Session.exists_key? (h.known other hother)
      rw [hkept other hother, hkey] at heq
      exact hyields ⟨node, hnode, key, heq, other, hother, fun h => hne h.symm,
        h.peek_of_dirty hsingle hother hkey⟩
    intro id hid other hother heq
    rcases (hrecords.dirty id).mp hid with hid | hid <;>
      rcases (hrecords.dirty other).mp hother with hother | hother
    · rw [hkept id hid, hkept other hother] at heq
      exact hsingle id hid other hother heq
    · obtain ⟨node, hnode, rfl⟩ := List.mem_map.mp hother
      exact (hnew node hnode id hid heq.symm).symm
    · obtain ⟨node, hnode, rfl⟩ := List.mem_map.mp hid
      exact hnew node hnode other hother heq
    · obtain ⟨node, hnode, rfl⟩ := List.mem_map.mp hid
      obtain ⟨more, hmore, rfl⟩ := List.mem_map.mp hother
      exact a.author_unique node hnode more hmore

end Action

/-! ### Runs -/

namespace Session

variable {σ : Type} [GraphStore σ] {s : Session σ} {size : Nat} {queue : List (EntityId × Change)}

/-- The dirty entity of a key stands for the key.  There is no other, loads of the key give it as it
is, and through it all changes were recorded that wait for an entity of the key. -/
structure Sole (s : Session σ) (queue : List (EntityId × Change)) : Prop where
  dirty : s.SingleDirty
  loaded : ∀ id ∈ s.dirty, ∀ e, s.entity? id = some e → ∀ t uri, e.key = (t.name, uri) →
    ∃ after, s.load t uri = (.ok (some id), after) ∧ after.entity? id = some e
  selected : ∀ id ∈ s.dirty, ∀ e, s.entity? id = some e →
    ∀ t text ids after, s.loadText t text = (.ok ids, after) →
      after.entity? id = some e ∧ ∀ other ∈ ids, after.key? other = some e.key → other = id
  changes : queue.map Prod.snd = s.journal.changes
  queued : ∀ node ∈ queue, ∀ other ∈ queue, s.key? node.1 = s.key? other.1 → node.1 = other.1

/-- What keeps it so: pins follow the dirty entities, of which there is one of each key. -/
structure Guarded (size : Nat) (s : Session σ) (queue : List (EntityId × Change)) : Prop where
  pins : s.PinsDirty size
  single : s.SingleDirty
  tracks : s.Tracks queue

theorem Guarded.sole (h : Guarded size s queue) : s.Sole queue where
  dirty := h.single
  loaded id hid e he t uri hkey := by
    have hown : s.key? id = some (t.name, uri) := hkey ▸ key?_eq he
    exact ⟨_, h.pins.load_of_dirty h.single hid hown, he⟩
  selected id hid e he t text ids after hload := by
    have hloads := s.loads_loadText t text
    rw [hload] at hloads
    exact ⟨(hloads.entity?_eq (h.pins.known id hid) (Or.inr hid)).trans he,
      h.pins.loadText_of_dirty h.single hid (key?_eq he) hload⟩
  changes := h.tracks.changes
  queued node hnode other hother heq := by
    have hdirty : ∀ node ∈ queue, node.1 ∈ s.dirty := fun node hnode =>
      (h.tracks.dirty node.1).mpr (List.mem_map_of_mem hnode)
    exact h.single node.1 (hdirty node hnode) other.1 (hdirty other hother) heq

omit [GraphStore σ] in
theorem Guarded.congr {s' : Session σ} (h : Guarded size s queue) (hcache : s'.cache = s.cache)
    (hdirty : s'.dirty = s.dirty) (hentities : s'.entities = s.entities)
    (hchanges : s'.journal.changes = s.journal.changes) : Guarded size s' queue := by
  have hkey : ∀ id, s'.key? id = s.key? id := fun id => by
    rw [key?, entity?, hentities]
    rfl
  have hlength := congrArg List.length hentities
  constructor
  · exact h.pins.congr hcache hdirty hkey hlength
  · exact h.single.congr (fun id hid => hdirty ▸ hid) fun id _ => hkey id
  · constructor
    · exact h.tracks.changes.trans hchanges.symm
    · rw [hdirty]
      exact h.tracks.dirty
    · rw [hdirty, hlength]
      exact h.tracks.known

theorem Guarded.act (h : Guarded size s queue) {a : Action σ} (hyields : ¬ a.Displaces s) :
    Guarded size (a.run s) (queue ++ a.recorded s) where
  pins := h.pins.act a
  single := (Action.singleDirty_run_iff h.pins h.single a).mpr hyields
  tracks := h.tracks.append (a.records_run s)

end Session

namespace Action

variable {σ : Type} [GraphStore σ] {s : Session σ} {size : Nat} {queue : List (EntityId × Change)}

/-- Something holds of the session and of the queue all the while that actions are carried out. -/
def Throughout (P : Session σ → List (EntityId × Change) → Prop) (s : Session σ)
    (queue : List (EntityId × Change)) : List (Action σ) → Prop
  | [] => P s queue
  | a :: rest => P s queue ∧ Throughout P (a.run s) (queue ++ a.recorded s) rest

/-- None of several actions displaces a dirty entity. -/
def NoneDisplaces (s : Session σ) : List (Action σ) → Prop
  | [] => True
  | a :: rest => ¬ a.Displaces s ∧ NoneDisplaces (a.run s) rest

theorem Throughout.head {P : Session σ → List (EntityId × Change) → Prop}
    {actions : List (Action σ)} (h : Throughout P s queue actions) : P s queue := by
  cases actions with
  | nil => exact h
  | cons a rest => exact h.1

theorem guarded_runAll (h : s.Guarded size queue) {actions : List (Action σ)}
    (hyield : NoneDisplaces s actions) :
    (runAll s actions).Guarded size (queue ++ recordedAll s actions) := by
  induction actions generalizing s queue with
  | nil =>
      rw [recordedAll, List.append_nil]
      exact h
  | cons a rest ih =>
      have hrest := ih (h.act hyield.1) hyield.2
      rw [List.append_assoc] at hrest
      exact hrest

/-- Each dirty entity stands for its key all the while exactly if none is displaced. -/
theorem throughout_iff_noneDisplaces (h : s.Guarded size queue) (actions : List (Action σ)) :
    Throughout Session.Sole s queue actions ↔ NoneDisplaces s actions := by
  induction actions generalizing s queue with
  | nil => exact iff_of_true h.sole trivial
  | cons a rest ih =>
      have hstep := singleDirty_run_iff h.pins h.single a
      constructor
      · rintro ⟨-, hrest⟩
        have hyields := hstep.mp hrest.head.dirty
        exact ⟨hyields, (ih (h.act hyields)).mp hrest⟩
      · rintro ⟨hyields, hrest⟩
        exact ⟨h.sole, (ih (h.act hyields)).mpr hrest⟩

end Action

namespace History

variable {σ : Type} [GraphStore σ] {h : History σ} {size : Nat}

/-- The actions of an operation, and the session in which they begin: for a commit, the one in which
its request is on its way. -/
def carried (s : Session σ) : Operation σ → Session σ × List (Action σ)
  | .act a => (s, [a])
  | .commit trip _ =>
    match s.beginCommit with
    | (.ok (some _), begun) => (begun, trip)
    | (_, begun) => (begun, [])
  | .rollback => (s, [])

/-- Something holds of the session and of the queue throughout a run, also while requests are on
their way. -/
def Throughout (P : Session σ → List (EntityId × Change) → Prop) (h : History σ) :
    List (Operation σ) → Prop
  | [] => P h.session h.queue
  | op :: rest => P h.session h.queue ∧
    Action.Throughout P (carried h.session op).1 h.queue (carried h.session op).2 ∧
    Throughout P (h.step op) rest

/-- No action of a run displaces a dirty entity. -/
def NoneDisplaces (h : History σ) : List (Operation σ) → Prop
  | [] => True
  | op :: rest =>
    Action.NoneDisplaces (carried h.session op).1 (carried h.session op).2 ∧
    NoneDisplaces (h.step op) rest

omit [GraphStore σ] in
/-- To begin an operation changes no entity. -/
theorem guarded_carried (hg : h.session.Guarded size h.queue) (op : Operation σ) :
    (carried h.session op).1.Guarded size h.queue := by
  cases op with
  | act a => exact hg
  | commit trip outcome =>
      have hbegins := h.session.beginCommit_begins
      unfold carried
      dsimp only
      generalize h.session.beginCommit = began at hbegins
      cases hbegins with
      | idle hempty => exact hg
      | refused e => exact hg.congr rfl rfl rfl rfl
      | begun c hsome hchanges hupdate hstates => exact hg.congr rfl rfl rfl rfl
  | rollback => exact hg

theorem single_commitDuring (hg : h.session.Guarded size h.queue) (trip : List (Action σ))
    (outcome : Outcome)
    (hyield : Action.NoneDisplaces (carried h.session (.commit trip outcome)).1
      (carried h.session (.commit trip outcome)).2) :
    (h.session.commitDuring trip outcome).2.PinsDirty size ∧
      (h.session.commitDuring trip outcome).2.SingleDirty := by
  have hbegins := h.session.beginCommit_begins
  unfold carried at hyield
  unfold Session.commitDuring Session.commitWith
  dsimp only at hyield ⊢
  generalize h.session.beginCommit = began at hbegins hyield
  cases hbegins with
  | idle hempty => exact ⟨hg.pins, hg.single⟩
  | refused e => exact ⟨hg.pins.congr rfl rfl (fun _ => rfl) rfl, hg.single⟩
  | begun c hsome hchanges hupdate hstates =>
      have hunderway : h.session.underway.Guarded size h.queue := hg.congr rfl rfl rfl rfl
      have hamid := Action.guarded_runAll hunderway hyield
      have hrecords := Action.records_runAll h.session.underway trip
      exact hamid.pins.endCommit_single hamid.single
        (fun id hid => (hrecords.dirty id).mpr (Or.inl hid)) hstates outcome

/-- One step of a run: an operation of which no action displaces a dirty entity. -/
theorem guarded_step (hg : h.session.Guarded size h.queue) {op : Operation σ}
    (hyield : Action.NoneDisplaces (carried h.session op).1 (carried h.session op).2) :
    (h.step op).session.Guarded size (h.step op).queue := by
  have htracks := tracks_step hg.tracks op
  cases op with
  | act a =>
      obtain ⟨hpins, hsingle, -⟩ := hg.act hyield.1
      exact ⟨hpins, hsingle, htracks⟩
  | commit trip outcome =>
      obtain ⟨hpins, hsingle⟩ := single_commitDuring hg trip outcome hyield
      have hsession : (h.step (.commit trip outcome)).session =
          (h.session.commitDuring trip outcome).2 := by
        unfold step
        dsimp only
        split <;> simp [*]
      exact ⟨hsession ▸ hpins, hsession ▸ hsingle, htracks⟩
  | rollback =>
      have hclean : h.session.rollback.dirty = [] := Session.rollback_dirty hg.pins.known
      have hsingle : h.session.rollback.SingleDirty := by
        intro id hid
        rw [hclean] at hid
        exact absurd hid List.not_mem_nil
      exact ⟨hg.pins.rollback, hsingle, htracks⟩

/-- Along a run: each dirty entity stands for its key throughout, exactly if none is displaced. -/
theorem throughout_sole_iff_of_guarded (hg : h.session.Guarded size h.queue)
    (ops : List (Operation σ)) : h.Throughout Session.Sole ops ↔ h.NoneDisplaces ops := by
  induction ops generalizing h with
  | nil => exact iff_of_true hg.sole trivial
  | cons op rest ih =>
      have hop := Action.throughout_iff_noneDisplaces (guarded_carried hg op)
        (carried h.session op).2
      constructor
      · rintro ⟨-, hduring, hrest⟩
        have hyield := hop.mp hduring
        exact ⟨hyield, (ih (guarded_step hg hyield)).mp hrest⟩
      · rintro ⟨hyield, hrest⟩
        exact ⟨hg.sole, hop.mpr hyield, (ih (guarded_step hg hyield)).mpr hrest⟩

/-- In every state of a run, also while a request is on its way, there is one dirty entity of each
key at most, every load of the key gives it with its pending values, and all changes of the key
that wait were recorded through it: exactly if no change was recorded through an entity while the
cache had another dirty one in its place. -/
theorem throughout_sole_iff (store : σ) (suffixes : Suffixes) (cacheSize : Nat)
    (ops : List (Operation σ)) :
    (start store suffixes cacheSize).Throughout Session.Sole ops ↔
      (start store suffixes cacheSize).NoneDisplaces ops := by
  apply throughout_sole_iff_of_guarded
  constructor
  · exact Session.pinsDirty_ofStore store suffixes cacheSize
  · exact fun id hid => absurd hid List.not_mem_nil
  · exact tracks_start store suffixes cacheSize

/-! A note leaves the cache for another one and is loaded again; then both of its entities get a
title. -/

open MemoryStore (noteType)
open Session (noteRow)

/-- A store that is asked about a note, about another one, and about the first one again. -/
def noteAnswers : PreparedStore :=
  ⟨[.ok [noteRow "http://e/n1" (.literal (.plain "a"))],
    .ok [noteRow "http://e/n2" (.literal (.plain "a"))],
    .ok [noteRow "http://e/n1" (.literal (.plain "a"))]]⟩

def retitleBoth : List (Operation PreparedStore) :=
  [.act (.load noteType "http://e/n1"), .act (.load noteType "http://e/n2"),
    .act (.load noteType "http://e/n1"),
    .act (.mutate (.set 0 "title" (.datum (.text "b")))),
    .act (.mutate (.set 2 "title" (.datum (.text "c"))))]

/-- What the two entities record, each of which replaces the title that it was loaded with. -/
def retitlings : List Edit :=
  [.replace "http://e/n1" "http://e/title" (.literal (.plain "a")) (.literal (.plain "b")),
    .replace "http://e/n1" "http://e/title" (.literal (.plain "a")) (.literal (.plain "c"))]

/-- The note with its title. -/
def titledStore : MemoryStore :=
  { MemoryStore.empty with graph :=
    [.stating "http://e/n1" "http://e/title" (.literal (.plain "a"))] }

theorem readable_retitlings : ∀ e ∈ retitlings, e.Readable := by
  have hnote : ValidIri "http://e/n1" := validIri_of_all rfl rfl
  have htitle : ValidIri "http://e/title" := validIri_of_all rfl rfl
  have hb : Sparql.Lexer.expanded (Literal.plain "b").n3.toList = some "\"b\"".toList := rfl
  have hc : Sparql.Lexer.expanded (Literal.plain "c").n3.toList = some "\"c\"".toList := rfl
  intro e he
  simp only [retitlings, List.mem_cons, List.not_mem_nil, or_false] at he
  rcases he with rfl | rfl
  · exact ⟨hnote, htitle, MemoryStore.readsBack_plain_a,
      Literal.readsBack_of_no_tab hb (by decide) rfl rfl rfl⟩
  · exact ⟨hnote, htitle, MemoryStore.readsBack_plain_a,
      Literal.readsBack_of_no_tab hc (by decide) rfl rfl rfl⟩

/-- In a session with room for one entity, the note has two dirty entities in the end.  A load gives
one of them without the title of the other, and what waits makes two titles of one. -/
theorem retitled_twice :
    let h := (start noteAnswers (.ofSequence toString) 1).run retitleBoth
    h.session.dirty = [0, 2] ∧
      h.session.key? 0 = some ("Note", "http://e/n1") ∧
      h.session.key? 2 = some ("Note", "http://e/n1") ∧
      (h.session.load noteType "http://e/n1").1 = .ok (some 2) ∧
      h.queue.map Prod.fst = [0, 2] ∧ h.session.journal.changes = retitlings.map Edit.change ∧
      ∃ text after, h.session.journal.update = .ok text ∧ titledStore.apply text = .ok after ∧
        Graph.Same after.graph
          [.stating "http://e/n1" "http://e/title" (.literal (.plain "b")),
            .stating "http://e/n1" "http://e/title" (.literal (.plain "c"))] := by
  intro h
  have hchanges : h.session.journal.changes = retitlings.map Edit.change := by decide +kernel
  have hbase : titledStore.prologue.base = none := rfl
  have hsome : retitlings ≠ [] := List.cons_ne_nil _ _
  obtain ⟨texts, htexts, -, hperforms⟩ :=
    Edit.performs_replay hbase hsome readable_retitlings
  obtain ⟨after, hafter, hsame, -⟩ := titledStore.apply_of_performs hperforms
  refine ⟨by decide +kernel, by decide +kernel, by decide +kernel, rfl, by decide +kernel,
    hchanges, _, after, ?_, hafter, hsame⟩
  rw [Journal.update, hchanges, Change.combine, htexts]
  rfl

end History

end EntityMapping
