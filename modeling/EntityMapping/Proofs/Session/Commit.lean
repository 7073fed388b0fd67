import EntityMapping.Proofs.Session.Loading
import EntityMapping.Session.Commit

/-!
What commits and rollbacks do to the entities of a session, to its dirty entities and to its cache.

Both go through a list of entities one by one.  What they come to does not depend on the order.
-/

namespace EntityMapping.Session

variable {σ : Type} {s s' s'' : Session σ} {id other : EntityId} {e : Entity} {state : EntityState}

/-- A session whose commit is on its way. -/
def underway (s : Session σ) : Session σ :=
  { s with redirtied := [], journal := { s.journal with committing := true } }

/-- All that beginning a commit can come to. -/
inductive Begins (s : Session σ) : Except CommitError (Option Commit) × Session σ → Prop where
  | idle (hempty : s.journal.changes = []) : Begins s (.ok none, s)
  | refused (e : CommitError) : Begins s (.error e, { s with redirtied := [] })
  | begun (c : Commit) (hsome : s.journal.changes ≠ [])
      (hchanges : c.batch.changes = s.journal.changes)
      (hupdate : s.journal.update = .ok c.batch.update) (hstates : c.states = s.dirtyStates) :
      Begins s (.ok (some c), s.underway)

theorem beginCommit_begins (s : Session σ) : Begins s s.beginCommit := by
  unfold beginCommit
  split
  · next hempty => exact .idle (List.isEmpty_iff.mp hempty)
  · next hsome =>
      unfold Journal.start
      by_cases hcommitting : s.journal.committing = true
      · simp only [if_pos hcommitting]
        exact .refused .inProgress
      · simp only [if_neg hcommitting, if_neg hsome]
        cases hupdate : s.journal.update with
        | error cause => exact .refused (.unrenderable cause)
        | ok text => exact .begun _ (fun hnil => hsome (List.isEmpty_iff.mpr hnil)) rfl hupdate rfl

theorem underway_of_begun {c : Commit} (h : s.beginCommit = (.ok (some c), s')) :
    s' = s.underway := by
  have hbegins := s.beginCommit_begins
  rw [h] at hbegins
  cases hbegins
  rfl

/-- Where every entity has become another one, the same entities are known. -/
theorem known_iff_of_map {f : EntityId → Entity → Entity}
    (h : ∀ id, s'.entity? id = (s.entity? id).map (f id)) (id : EntityId) :
    id < s'.entities.length ↔ id < s.entities.length := by
  rw [← Nat.not_le, ← Nat.not_le, ← entity?_eq_none, ← entity?_eq_none, h,
    Option.map_eq_none_iff]

/-! ### Settling -/

/-- The states of some entities were settled.  Those that changed since the commit began have the
states from then as committed ones, and stay dirty. -/
structure Settled (s : Session σ) (states : EntityId → EntityState) (ids : List EntityId)
    (s' : Session σ) : Prop where
  journal : s'.journal = s.journal
  redirtied : s'.redirtied = s.redirtied
  dirty : ∀ id, id ∈ s'.dirty ↔ id ∈ s.dirty ∧ (id ∈ ids → id ∈ s.redirtied)
  entity : ∀ id, s'.entity? id = (s.entity? id).map fun e =>
    if id ∈ ids then e.markCommitted (if id ∈ s.redirtied then states id else e.values) else e
  entries : ∀ entry ∈ s'.cache.entries, entry ∈ s.cache.entries
  pinned : ∀ key ∈ s'.cache.pinned, key ∈ s.cache.pinned ∧
    ∀ id ∈ ids, id ∉ s.redirtied → ∀ e, s.entity? id = some e → e.key ≠ key

theorem settled_nothing (s : Session σ) (states : EntityId → EntityState) :
    Settled s states [] s where
  journal := rfl
  redirtied := rfl
  dirty id := by simp
  entity id := by simp
  entries _ h := h
  pinned key h := ⟨h, by simp⟩

theorem release_cache (s : Session σ) (e : Entity) :
    (∀ entry ∈ (s.release e).cache.entries, entry ∈ s.cache.entries) ∧
      ∀ key ∈ (s.release e).cache.pinned, key ∈ s.cache.pinned ∧ key ≠ e.key := by
  unfold release
  cases e.deleted with
  | true =>
      exact ⟨fun entry h => (Cache.mem_discard.mp h).1, fun key h => Cache.mem_discard_pinned.mp h⟩
  | false =>
      exact ⟨fun entry h => Cache.mem_of_mem_unpin h, fun key h => Cache.mem_unpin_pinned.mp h⟩

theorem settle_of_redirtied (hid : id ∈ s.redirtied) (he : s.entity? id = some e) :
    s.settle (id, state) = s.setEntity id (e.markCommitted state) := by
  have hcontains : s.redirtied.contains id = true := by simpa using hid
  simp only [settle, hcontains, if_true, he]

theorem settle_of_clean (hid : id ∉ s.redirtied) (he : s.entity? id = some e) :
    s.settle (id, state) = ({ s with dirty := s.dirty.filter (· ≠ id) }.release e).setEntity id
      (e.markCommitted e.values) := by
  have hcontains : s.redirtied.contains id = false := by simpa using hid
  simp only [settle, hcontains, Bool.false_eq_true, if_false, markCommitted, he]

theorem settled_settle (states : EntityId → EntityState) (hid : id < s.entities.length) :
    Settled s states [id] (s.settle (id, states id)) := by
  obtain ⟨e, he⟩ : ∃ e, s.entity? id = some e := ⟨_, List.getElem?_eq_getElem hid⟩
  by_cases hredirtied : id ∈ s.redirtied
  · rw [settle_of_redirtied hredirtied he]
    refine ⟨rfl, rfl, fun other => ?_, fun other => ?_, fun _ h => h, fun key hkey => ⟨hkey, ?_⟩⟩
    · refine ⟨fun h => ⟨h, fun hother => ?_⟩, And.left⟩
      exact List.mem_singleton.mp hother ▸ hredirtied
    · rw [entity?_setEntity s he]
      by_cases hother : other = id
      · subst hother
        simp [he, hredirtied]
      · simp [hother]
    · intro other hother hclean
      exact absurd (List.mem_singleton.mp hother ▸ hredirtied) hclean
  · rw [settle_of_clean hredirtied he]
    have hcache := release_cache { s with dirty := s.dirty.filter (· ≠ id) } e
    constructor
    · rfl
    · rfl
    · intro other
      have hfilter : other ∈ s.dirty.filter (· ≠ id) ↔ other ∈ s.dirty ∧ other ≠ id := by simp
      refine hfilter.trans (and_congr_right fun _ => ⟨fun hne hother => ?_, fun h heq => ?_⟩)
      · exact absurd (List.mem_singleton.mp hother) hne
      · exact hredirtied (heq ▸ h (List.mem_singleton.mpr heq))
    · intro other
      have hentity : ({ s with dirty := s.dirty.filter (· ≠ id) }.release e).entity? id =
          some e := he
      rw [entity?_setEntity _ hentity]
      by_cases hother : other = id
      · subst hother
        simp [he, hredirtied]
      · simp only [hother, List.mem_singleton, if_false, Option.map_id']
        rfl
    · exact hcache.1
    · intro key hkey
      obtain ⟨hpinned, hne⟩ := hcache.2 key hkey
      refine ⟨hpinned, fun other hother _ found hfound heq => ?_⟩
      obtain rfl := List.mem_singleton.mp hother
      obtain rfl := Option.some.inj (he.symm.trans hfound)
      exact hne heq.symm

theorem Settled.append {states : EntityId → EntityState} {ids more : List EntityId}
    (h : Settled s states ids s') (hmore : Settled s' states more s'') :
    Settled s states (ids ++ more) s'' where
  journal := hmore.journal.trans h.journal
  redirtied := hmore.redirtied.trans h.redirtied
  dirty id := by
    rw [hmore.dirty, h.dirty, h.redirtied]
    simp only [List.mem_append]
    tauto
  entity id := by
    rw [hmore.entity, h.entity, Option.map_map, h.redirtied]
    refine congrArg (Option.map · _) (funext fun e => ?_)
    by_cases hid : id ∈ ids <;> by_cases hmore : id ∈ more <;>
      by_cases hredirtied : id ∈ s.redirtied <;> simp [hid, hmore, hredirtied, Entity.markCommitted]
  entries entry hentry := h.entries entry (hmore.entries entry hentry)
  pinned key hkey := by
    obtain ⟨hkey, hother⟩ := hmore.pinned key hkey
    obtain ⟨hpinned, hids⟩ := h.pinned key hkey
    refine ⟨hpinned, fun id hid hclean e he => ?_⟩
    rcases List.mem_append.mp hid with hid | hid
    · exact hids id hid hclean e he
    · have hentity := h.entity id
      rw [he, Option.map_some] at hentity
      have hne := hother id hid (h.redirtied ▸ hclean) _ hentity
      split at hne <;> exact hne

theorem Settled.known {states : EntityId → EntityState} {ids : List EntityId}
    (h : Settled s states ids s') (id : EntityId) :
    id < s'.entities.length ↔ id < s.entities.length :=
  known_iff_of_map h.entity id

theorem settled_foldl (s : Session σ) (states : EntityId → EntityState) {ids : List EntityId}
    (hids : ∀ id ∈ ids, id < s.entities.length) :
    Settled s states ids ((ids.map fun id => (id, states id)).foldl settle s) := by
  induction ids generalizing s with
  | nil => exact settled_nothing s states
  | cons id ids ih =>
      have hfirst := settled_settle states (hids id List.mem_cons_self)
      refine hfirst.append (ih (s.settle (id, states id)) fun other hother => ?_)
      exact (hfirst.known other).mpr (hids other (List.mem_cons_of_mem _ hother))

/-! ### Ending a commit -/

theorem endCommit_of_failed {outcome : Outcome} (h : outcome ≠ .accepted) (s : Session σ)
    (c : Commit) : ∃ cause, s.endCommit c outcome =
      (.error cause, { s with journal := { s.journal with committing := false } }) := by
  cases outcome with
  | accepted => exact absurd rfl h
  | rejected cause => exact ⟨_, rfl⟩
  | interrupted => exact ⟨_, rfl⟩

/-- A commit that succeeds settles the entities that were dirty when it began. -/
theorem endCommit_of_accepted {begun : Session σ} {c : Commit}
    (hknown : ∀ id ∈ begun.dirty, id < s.entities.length) (hstates : c.states = begun.dirtyStates) :
    ∃ settled, s.endCommit c .accepted =
        (.ok c.batch.changes.length, { settled with redirtied := [] }) ∧
      Settled { s with journal := ⟨s.journal.changes.drop c.batch.changes.length, false⟩ }
        (fun id => (begun.entity? id).elim [] Entity.values) begun.dirty settled := by
  refine ⟨_, rfl, ?_⟩
  rw [hstates]
  exact settled_foldl _ _ hknown

/-! ### Rolling back -/

/-- Some entities were taken back to what was committed.  They are clean and have no pins, and those
that were never committed are not in the cache. -/
structure RolledBack (s : Session σ) (ids : List EntityId) (s' : Session σ) : Prop where
  journal : s'.journal = s.journal
  dirty : ∀ id, id ∈ s'.dirty ↔ id ∈ s.dirty ∧ id ∉ ids
  entity : ∀ id, s'.entity? id = (s.entity? id).map fun e => if id ∈ ids then e.revert else e
  entries : ∀ entry ∈ s'.cache.entries, entry ∈ s.cache.entries
  pinned : ∀ key ∈ s'.cache.pinned, key ∈ s.cache.pinned ∧
    ∀ id ∈ ids, ∀ e, s.entity? id = some e → e.key ≠ key
  dropped : ∀ id ∈ ids, ∀ e, s.entity? id = some e → e.isNew = true →
    ∀ entry ∈ s'.cache.entries, entry.1 ≠ e.key

theorem rolledBack_nothing (s : Session σ) : RolledBack s [] s where
  journal := rfl
  dirty id := by simp
  entity id := by simp
  entries _ h := h
  pinned key h := ⟨h, by simp⟩
  dropped id hid := by simp at hid

theorem rollbackEntity_eq (he : s.entity? id = some e) :
    s.rollbackEntity id =
      ({ s with dirty := s.dirty.filter (· ≠ id) }.setEntity id e.revert).release e.revert := by
  simp only [rollbackEntity, he]

theorem rolledBack_entity (hid : id < s.entities.length) :
    RolledBack s [id] (s.rollbackEntity id) := by
  obtain ⟨e, he⟩ : ∃ e, s.entity? id = some e := ⟨_, List.getElem?_eq_getElem hid⟩
  rw [rollbackEntity_eq he]
  have hcache := release_cache
    ({ s with dirty := s.dirty.filter (· ≠ id) }.setEntity id e.revert) e.revert
  constructor
  · rfl
  · intro other
    have hfilter : other ∈ s.dirty.filter (· ≠ id) ↔ other ∈ s.dirty ∧ other ≠ id := by simp
    rw [List.mem_singleton]
    exact hfilter
  · intro other
    have hentity := entity?_setEntity s he e.revert other
    apply Eq.trans hentity
    by_cases hother : other = id
    · subst hother
      simp [he]
    · simp [hother]
  · exact hcache.1
  · intro key hkey
    obtain ⟨hpinned, hne⟩ := hcache.2 key hkey
    refine ⟨hpinned, fun other hother found hfound heq => ?_⟩
    obtain rfl := List.mem_singleton.mp hother
    obtain rfl := Option.some.inj (he.symm.trans hfound)
    exact hne heq.symm
  · intro other hother found hfound hnew entry hentry
    obtain rfl := List.mem_singleton.mp hother
    obtain rfl := Option.some.inj (he.symm.trans hfound)
    have hdeleted : e.revert.deleted = true := hnew
    simp only [release, hdeleted, if_true] at hentry
    exact (Cache.mem_discard.mp hentry).2

theorem RolledBack.append {ids more : List EntityId} (h : RolledBack s ids s')
    (hmore : RolledBack s' more s'') : RolledBack s (ids ++ more) s'' := by
  have hkey : ∀ id e, s.entity? id = some e →
      ∃ e', s'.entity? id = some e' ∧ e'.key = e.key ∧ e'.isNew = e.isNew := by
    intro id e he
    have hentity := h.entity id
    rw [he, Option.map_some] at hentity
    refine ⟨_, hentity, ?_, ?_⟩ <;> split <;> rfl
  constructor
  · exact hmore.journal.trans h.journal
  · intro id
    rw [hmore.dirty, h.dirty, List.mem_append, not_or, and_assoc]
  · intro id
    rw [hmore.entity, h.entity, Option.map_map]
    refine congrArg (Option.map · _) (funext fun e => ?_)
    by_cases hid : id ∈ ids <;> by_cases hmore : id ∈ more <;> simp [hid, hmore, Entity.revert]
  · intro entry hentry
    exact h.entries entry (hmore.entries entry hentry)
  · intro key hkept
    obtain ⟨hkept, hother⟩ := hmore.pinned key hkept
    obtain ⟨hpinned, hids⟩ := h.pinned key hkept
    refine ⟨hpinned, fun id hid e he => ?_⟩
    rcases List.mem_append.mp hid with hid | hid
    · exact hids id hid e he
    · obtain ⟨e', he', heq, -⟩ := hkey id e he
      exact heq ▸ hother id hid e' he'
  · intro id hid e he hnew entry hentry
    rcases List.mem_append.mp hid with hid | hid
    · exact h.dropped id hid e he hnew entry (hmore.entries entry hentry)
    · obtain ⟨e', he', heq, hnew'⟩ := hkey id e he
      exact heq ▸ hmore.dropped id hid e' he' (hnew'.trans hnew) entry hentry

theorem RolledBack.known {ids : List EntityId} (h : RolledBack s ids s') (id : EntityId) :
    id < s'.entities.length ↔ id < s.entities.length :=
  known_iff_of_map h.entity id

theorem rolledBack_foldl (s : Session σ) {ids : List EntityId}
    (hids : ∀ id ∈ ids, id < s.entities.length) :
    RolledBack s ids (ids.foldl rollbackEntity s) := by
  induction ids generalizing s with
  | nil => exact rolledBack_nothing s
  | cons id ids ih =>
      have hfirst := rolledBack_entity (hids id List.mem_cons_self)
      refine hfirst.append (ih (s.rollbackEntity id) fun other hother => ?_)
      exact (hfirst.known other).mpr (hids other (List.mem_cons_of_mem _ hother))

end EntityMapping.Session
