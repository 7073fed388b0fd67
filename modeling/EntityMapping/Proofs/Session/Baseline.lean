import EntityMapping.Proofs.Session.Queue

/-!
A rollback takes the dirty entities back to what was committed last.

The state that an entity keeps as its committed one is that of its last load, or of the beginning of
the last commit that it was part of.  An entity that was never part of one is new.
-/

namespace EntityMapping

/-- The state that an entity would be taken back to; a new one has none. -/
def Entity.baseline (e : Entity) : Option EntityState :=
  if e.isNew then none else some e.committed

namespace Session

variable {σ : Type} {s s' : Session σ} {id : EntityId} {e after : Entity}
  {committed : EntityId → Option EntityState}

/-- A session whose entities keep the given committed states.  What is in the cache is there under
its own key, and is dirty if it is new.  Only dirty entities are pinned. -/
structure Consistent (s : Session σ) (committed : EntityId → Option EntityState) : Prop where
  known : ∀ id ∈ s.dirty, id < s.entities.length
  baseline : ∀ id, committed id = (s.entity? id).bind Entity.baseline
  cached : ∀ key id, (key, some id) ∈ s.cache.entries →
    ∃ e, s.entity? id = some e ∧ e.key = key ∧ (e.isNew = true → id ∈ s.dirty)
  pinned : ∀ key ∈ s.cache.pinned, ∃ id ∈ s.dirty, ∃ e, s.entity? id = some e ∧ e.key = key

theorem exists_entity? (h : id < s.entities.length) : ∃ e, s.entity? id = some e :=
  ⟨_, List.getElem?_eq_getElem h⟩

theorem lt_of_entity? (h : s.entity? id = some e) : id < s.entities.length :=
  (List.getElem?_eq_some_iff.mp h).1

/-! ### Loading -/

theorem Consistent.quiet (h : Consistent s committed) (hquiet : Quiet s s') :
    Consistent s' committed := by
  have hentity : ∀ id, s'.entity? id = s.entity? id := fun id => by
    rw [entity?, hquiet.entities]
    rfl
  constructor
  · intro id hid
    rw [hquiet.entities]
    exact h.known id (hquiet.dirty ▸ hid)
  · intro id
    rw [hentity]
    exact h.baseline id
  · intro key id hentry
    rw [hentity, hquiet.dirty]
    exact h.cached key id (hquiet.entries _ hentry)
  · intro key hkey
    rw [hquiet.dirty]
    simp only [hentity]
    exact h.pinned key (hquiet.pinned ▸ hkey)

/-- The committed states with that of one entity replaced. -/
def withBaseline (committed : EntityId → Option EntityState) (id : EntityId)
    (state : EntityState) : EntityId → Option EntityState :=
  fun other => if other = id then some state else committed other

theorem Consistent.refresh (h : Consistent s committed) (he : s.entity? id = some e)
    (hdirty : id ∉ s.dirty) (hcached : ∃ key, (key, some id) ∈ s.cache.entries)
    (state : EntityState) :
    Consistent (s.setEntity id (e.refresh state)) (withBaseline committed id state) := by
  have hentity := entity?_setEntity s he (e.refresh state)
  have hold : e.isNew = false := by
    obtain ⟨key, hentry⟩ := hcached
    obtain ⟨found, hfound, -, hnew⟩ := h.cached key id hentry
    obtain rfl := Option.some.inj (he.symm.trans hfound)
    exact Bool.eq_false_iff.mpr fun hisNew => hdirty (hnew hisNew)
  constructor
  · intro other hother
    simpa [setEntity] using h.known other hother
  · intro other
    rw [hentity]
    by_cases hother : other = id
    · simp [withBaseline, hother, Entity.baseline, Entity.refresh, hold]
    · simp [withBaseline, hother, h.baseline]
  · intro key other hentry
    obtain ⟨found, hfound, hkey, hnew⟩ := h.cached key other hentry
    rw [hentity]
    by_cases hother : other = id
    · subst hother
      obtain rfl := Option.some.inj (he.symm.trans hfound)
      exact ⟨_, if_pos rfl, hkey, hnew⟩
    · exact ⟨found, by rw [if_neg hother, hfound], hkey, hnew⟩
  · intro key hkey
    obtain ⟨other, hother, found, hfound, hkey⟩ := h.pinned key hkey
    have hne : other ≠ id := fun heq => hdirty (heq ▸ hother)
    exact ⟨other, hother, found, by rw [hentity, if_neg hne, hfound], hkey⟩

theorem Consistent.add (h : Consistent s committed) (t : EntityType) (uri : String)
    (state : EntityState) :
    Consistent (s.addEntity (.loaded t uri state)).2
      (withBaseline committed s.entities.length state) := by
  have hentity := entity?_addEntity s (.loaded t uri state)
  constructor
  · intro other hother
    simpa [addEntity] using Nat.lt_succ_of_lt (h.known other hother)
  · intro other
    rw [hentity]
    by_cases hother : other = s.entities.length
    · simp [withBaseline, hother, Entity.baseline, Entity.loaded]
    · simp [withBaseline, hother, h.baseline]
  · intro key other hentry
    rw [hentity]
    rcases Cache.mem_put hentry with hentry | hentry
    · obtain ⟨found, hfound, hkey, hnew⟩ := h.cached key other hentry
      exact ⟨found, by rw [if_neg (Nat.ne_of_lt (lt_of_entity? hfound)), hfound], hkey, hnew⟩
    · obtain ⟨rfl, hid⟩ := Prod.mk.inj hentry
      obtain rfl := Option.some.inj hid
      exact ⟨_, if_pos rfl, rfl, fun hnew => absurd hnew Bool.false_ne_true⟩
  · intro key hkey
    obtain ⟨other, hother, found, hfound, hkey⟩ := h.pinned key hkey
    refine ⟨other, hother, found, ?_, hkey⟩
    rw [hentity, if_neg (Nat.ne_of_lt (h.known other hother)), hfound]

theorem Consistent.congr {others : EntityId → Option EntityState} (h : Consistent s committed)
    (heq : ∀ id, others id = committed id) : Consistent s others :=
  (funext heq : others = committed) ▸ h

theorem Loads.state?_eq {ids : List EntityId} (h : Loads s ids s') (he : s.entity? id = some e)
    (hid : id ∉ ids) : s'.state? id = some e.values := by
  rw [state?, h.entity?_eq (lt_of_entity? he) (Or.inl hid), he]
  rfl

/-- A load makes what it finds in the store the committed states. -/
theorem Consistent.loads {ids : List EntityId} (h : Consistent s committed)
    (hloads : Loads s ids s') :
    Consistent s' fun id => if id ∈ ids ∧ id ∉ s.dirty then s'.state? id else committed id := by
  induction hloads generalizing committed with
  | nothing => exact h.congr fun id => by simp
  | quiet hquiet _ ih =>
      rw [← hquiet.dirty]
      exact ih (h.quiet hquiet)
  | @kept s s' ids id hdirty hmore ih =>
      apply (ih h).congr
      intro other
      by_cases hother : other = id
      · subst hother
        simp [hdirty]
      · simp [hother]
  | unknown hnone hcached _ ih =>
      obtain ⟨key, hentry⟩ := hcached
      obtain ⟨e, he, -⟩ := h.cached key _ hentry
      rw [hnone] at he
      contradiction
  | @refresh s s' ids id e he hdirty hcached state hmore ih =>
      have hentity := (entity?_setEntity s he (e.refresh state) id).trans (if_pos rfl)
      have hsame : (s.setEntity id (e.refresh state)).dirty = s.dirty := rfl
      apply (ih (h.refresh he hdirty hcached state)).congr
      intro other
      rw [hsame]
      by_cases hother : other = id
      · subst hother
        by_cases hmem : other ∈ ids
        · simp [hmem, hdirty]
        · simp [hmem, hdirty, withBaseline, hmore.state?_eq hentity hmem, Entity.refresh]
      · simp [hother, withBaseline]
  | @add s s' ids t uri state hmore ih =>
      have hentity := (entity?_addEntity s (.loaded t uri state) s.entities.length).trans
        (if_pos rfl)
      have hsame : (s.addEntity (.loaded t uri state)).2.dirty = s.dirty := rfl
      have hdirty : s.entities.length ∉ s.dirty := fun hid => Nat.lt_irrefl _ (h.known _ hid)
      apply (ih (h.add t uri state)).congr
      intro other
      rw [hsame]
      by_cases hother : other = s.entities.length
      · subst hother
        by_cases hmem : s.entities.length ∈ ids
        · simp [hmem, hdirty]
        · simp [hmem, hdirty, withBaseline, hmore.state?_eq hentity hmem, Entity.loaded]
      · simp [hother, withBaseline]

/-! ### Mutating -/

theorem Consistent.setEntity (h : Consistent s committed) (he : s.entity? id = some e)
    (htype : after.type = e.type) (huri : after.uri = e.uri)
    (hcommitted : after.committed = e.committed) (hisNew : after.isNew = e.isNew) :
    Consistent (s.setEntity id after) committed := by
  have hentity := entity?_setEntity s he after
  have hkey : after.key = e.key := by rw [Entity.key, Entity.key, htype, huri]
  have hfind : ∀ other found, s.entity? other = some found → ∃ found',
      (s.setEntity id after).entity? other = some found' ∧ found'.key = found.key ∧
        found'.isNew = found.isNew := by
    intro other found hfound
    rw [hentity]
    by_cases hother : other = id
    · subst hother
      obtain rfl := Option.some.inj (he.symm.trans hfound)
      exact ⟨after, if_pos rfl, hkey, hisNew⟩
    · exact ⟨found, by rw [if_neg hother, hfound], rfl, rfl⟩
  constructor
  · intro other hother
    simpa [Session.setEntity] using h.known other hother
  · intro other
    rw [hentity, h.baseline]
    by_cases hother : other = id
    · subst hother
      simp [he, Entity.baseline, hcommitted, hisNew]
    · simp [hother]
  · intro key other hentry
    obtain ⟨found, hfound, hkey, hnew⟩ := h.cached key other hentry
    obtain ⟨found', hfound', hkey', hnew'⟩ := hfind other found hfound
    exact ⟨found', hfound', hkey'.trans hkey, fun hisNew => hnew (hnew' ▸ hisNew)⟩
  · intro key hkey
    obtain ⟨other, hother, found, hfound, hkey⟩ := h.pinned key hkey
    obtain ⟨found', hfound', hkey', -⟩ := hfind other found hfound
    exact ⟨other, hother, found', hfound', hkey'.trans hkey⟩

/-- A session that is consistent, but for one new entity, is so once that entity is dirty. -/
theorem consistent_record (he : s.entity? id = some e)
    (hknown : ∀ other ∈ s.dirty, other < s.entities.length)
    (hbaseline : ∀ other, committed other = (s.entity? other).bind Entity.baseline)
    (hcached : ∀ key other, (key, some other) ∈ s.cache.entries → ∃ found,
      s.entity? other = some found ∧ found.key = key ∧
        (found.isNew = true → other ∈ s.dirty ∨ other = id))
    (hpinned : ∀ key ∈ s.cache.pinned, ∃ other ∈ s.dirty, ∃ found,
      s.entity? other = some found ∧ found.key = key) (c : Change) :
    Consistent (s.record id c) committed := by
  rw [record_eq he]
  constructor
  · intro other hother
    rcases mem_withId.mp hother with hother | rfl
    · exact hknown other hother
    · exact lt_of_entity? he
  · exact hbaseline
  · intro key other hentry
    rcases mem_pinEntity hentry with hentry | hentry
    · obtain ⟨found, hfound, hkey, hnew⟩ := hcached key other hentry
      exact ⟨found, hfound, hkey, fun hisNew => mem_withId.mpr (hnew hisNew)⟩
    · obtain ⟨rfl, hid⟩ := Prod.mk.inj hentry
      obtain rfl := Option.some.inj hid
      exact ⟨e, he, rfl, fun _ => mem_withId.mpr (Or.inr rfl)⟩
  · intro key hkey
    rcases mem_pinEntity_pinned hkey with hkey | rfl
    · obtain ⟨other, hother, hfound⟩ := hpinned key hkey
      exact ⟨other, mem_withId.mpr (Or.inl hother), hfound⟩
    · exact ⟨id, mem_withId.mpr (Or.inr rfl), e, he, rfl⟩

theorem Consistent.record (h : Consistent s committed) (he : s.entity? id = some e) (c : Change) :
    Consistent (s.record id c) committed := by
  refine consistent_record he h.known h.baseline (fun key other hentry => ?_) h.pinned c
  obtain ⟨found, hfound, hkey, hnew⟩ := h.cached key other hentry
  exact ⟨found, hfound, hkey, fun hisNew => Or.inl (hnew hisNew)⟩

theorem Consistent.create (h : Consistent s committed) (t : EntityType) (uri : String)
    (d : Draft) : Consistent (s.keepCreated t uri d).2 committed := by
  have hentity := entity?_addEntity s (.created t uri d.state)
  have hnew := (hentity s.entities.length).trans (if_pos rfl)
  have hold : ∀ other found, s.entity? other = some found →
      (s.addEntity (.created t uri d.state)).2.entity? other = some found := fun other found hfound =>
    by rw [hentity, if_neg (Nat.ne_of_lt (lt_of_entity? hfound)), hfound]
  refine consistent_record hnew (fun other hother => ?_) (fun other => ?_)
    (fun key other hentry => ?_) (fun key hkey => ?_) _
  · simpa [addEntity] using Nat.lt_succ_of_lt (h.known other hother)
  · rw [hentity, h.baseline]
    by_cases hother : other = s.entities.length
    · simp [hother, entity?_eq_none.mpr (Nat.le_refl s.entities.length), Entity.baseline,
        Entity.created]
    · simp [hother]
  · rcases Cache.mem_put hentry with hentry | hentry
    · obtain ⟨found, hfound, hkey, hdirty⟩ := h.cached key other hentry
      exact ⟨found, hold other found hfound, hkey, fun hisNew => Or.inl (hdirty hisNew)⟩
    · obtain ⟨rfl, hid⟩ := Prod.mk.inj hentry
      obtain rfl := Option.some.inj hid
      exact ⟨_, hnew, rfl, fun _ => Or.inr rfl⟩
  · obtain ⟨other, hother, found, hfound, hkey⟩ := h.pinned key hkey
    exact ⟨other, hother, found, hold other found hfound, hkey⟩

theorem Consistent.steps {m : Mutation} (h : Consistent s committed) (hsteps : m.Steps s s') :
    Consistent s' committed := by
  cases hsteps with
  | refused m suffixes => exact h.quiet ⟨rfl, rfl, rfl, rfl, rfl, fun _ h => h⟩
  | @changed m e after c he hafter hvalue =>
      obtain ⟨htype, huri, hcommitted, hisNew⟩ := hafter.keeps
      have hentity := (entity?_setEntity s he after (m.author s)).trans (if_pos rfl)
      exact (h.setEntity he htype huri hcommitted hisNew).record hentity c
  | @created t values d hdraft =>
      have hquiet : Quiet s { s with suffixes := s.suffixes.next.2 } :=
        ⟨rfl, rfl, rfl, rfl, rfl, fun _ h => h⟩
      exact (h.quiet hquiet).create t (s.freshIri t) d

/-! ### Rolling back -/

theorem rolledBack_rollback (hknown : ∀ id ∈ s.dirty, id < s.entities.length) :
    RolledBack { s with journal := s.journal.clear } s.dirty s.rollback :=
  rolledBack_foldl _ hknown

theorem entity?_rollback (hknown : ∀ id ∈ s.dirty, id < s.entities.length) (id : EntityId) :
    s.rollback.entity? id =
      (s.entity? id).map fun e => if id ∈ s.dirty then e.revert else e :=
  (rolledBack_rollback hknown).entity id

theorem rollback_dirty (hknown : ∀ id ∈ s.dirty, id < s.entities.length) :
    s.rollback.dirty = [] := by
  apply List.eq_nil_iff_forall_not_mem.mpr
  intro id hid
  obtain ⟨hdirty, hkept⟩ := ((rolledBack_rollback hknown).dirty id).mp hid
  exact hkept hdirty

theorem Consistent.rollback (h : Consistent s committed) : Consistent s.rollback committed := by
  have hrolled := rolledBack_rollback h.known
  have hdirty := rollback_dirty h.known
  constructor
  · intro id hid
    rw [hdirty] at hid
    contradiction
  · intro id
    rw [h.baseline, entity?_rollback h.known]
    cases s.entity? id with
    | none => rfl
    | some e => by_cases hid : id ∈ s.dirty <;> simp [hid, Entity.baseline, Entity.revert]
  · intro key id hentry
    obtain ⟨e, he, hkey, hnew⟩ := h.cached key id (hrolled.entries _ hentry)
    have hentity := entity?_rollback h.known id
    rw [he, Option.map_some] at hentity
    refine ⟨_, hentity, ?_, fun hisNew => ?_⟩
    · split <;> exact hkey
    · have hisNew : e.isNew = true := by
        split at hisNew <;> exact hisNew
      exact absurd hkey.symm (hrolled.dropped id (hnew hisNew) e he hisNew _ hentry)
  · intro key hkey
    obtain ⟨hpinned, hreleased⟩ := hrolled.pinned key hkey
    obtain ⟨id, hid, e, he, heq⟩ := h.pinned key hpinned
    exact absurd heq (hreleased id hid e he)

theorem Consistent.rollback_pinned (h : Consistent s committed) : s.rollback.cache.pinned = [] := by
  apply List.eq_nil_iff_forall_not_mem.mpr
  intro key hkey
  obtain ⟨id, hid, -⟩ := h.rollback.pinned key hkey
  rw [rollback_dirty h.known] at hid
  contradiction

/-- A dirty entity that was never committed is out of the cache after a rollback. -/
theorem Consistent.rollback_dropped (h : Consistent s committed) (hid : id ∈ s.dirty)
    (he : s.entity? id = some e) (hnew : e.isNew = true) :
    s.rollback.cache.contains e.key = false ∧
      ∀ key, (key, some id) ∉ s.rollback.cache.entries := by
  have hdropped := (rolledBack_rollback h.known).dropped id hid e he hnew
  constructor
  · apply Bool.eq_false_iff.mpr
    intro hcontains
    obtain ⟨entry, hentry, hkey⟩ := Cache.contains_iff.mp hcontains
    exact hdropped entry hentry hkey
  · intro key hentry
    obtain ⟨found, hfound, hkey, -⟩ := h.rollback.cached key id hentry
    rw [entity?_rollback h.known, he, Option.map_some, if_pos hid] at hfound
    obtain rfl := Option.some.inj hfound
    exact hdropped _ hentry hkey.symm

/-! ### Committing -/

theorem Consistent.settled {begun : Session σ} {states : EntityId → EntityState}
    (h : Consistent s committed) (hsettled : Settled s states begun.dirty s')
    (hknown : ∀ id ∈ begun.dirty, id < s.entities.length)
    (hstates : ∀ id ∈ begun.dirty, begun.state? id = some (states id))
    (hkept : ∀ id ∈ begun.dirty, id ∉ s.redirtied → s.entity? id = begun.entity? id) :
    Consistent s' fun id => if id ∈ begun.dirty then begun.state? id else committed id := by
  constructor
  · intro id hid
    exact (hsettled.known id).mpr (h.known id ((hsettled.dirty id).mp hid).1)
  · intro id
    rw [hsettled.entity id]
    by_cases hid : id ∈ begun.dirty
    · obtain ⟨e, he⟩ := exists_entity? (hknown id hid)
      rw [he, if_pos hid, Option.map_some, if_pos hid, Option.bind_some, hstates id hid]
      by_cases hredirtied : id ∈ s.redirtied
      · rw [if_pos hredirtied]
        rfl
      · have hstate := hstates id hid
        rw [state?, ← hkept id hid hredirtied, he] at hstate
        rw [if_neg hredirtied, ← hstate]
        rfl
    · simp [hid, h.baseline]
  · intro key id hentry
    obtain ⟨e, he, hkey, hnew⟩ := h.cached key id (hsettled.entries _ hentry)
    have hentity := hsettled.entity id
    rw [he, Option.map_some] at hentity
    refine ⟨_, hentity, ?_, fun hisNew => ?_⟩
    · split <;> exact hkey
    · by_cases hid : id ∈ begun.dirty
      · rw [if_pos hid] at hisNew
        contradiction
      · rw [if_neg hid] at hisNew
        exact (hsettled.dirty id).mpr ⟨hnew hisNew, fun h => absurd h hid⟩
  · intro key hkey
    obtain ⟨hpinned, hreleased⟩ := hsettled.pinned key hkey
    obtain ⟨id, hid, e, he, heq⟩ := h.pinned key hpinned
    have hentity := hsettled.entity id
    rw [he, Option.map_some] at hentity
    refine ⟨id, (hsettled.dirty id).mpr ⟨hid, fun hbegun => ?_⟩, _, hentity, ?_⟩
    · by_contra hclean
      exact hreleased id hbegun hclean e he heq
    · split <;> exact heq

end Session

namespace Action

variable {σ : Type} [GraphStore σ] {s : Session σ} {committed : EntityId → Option EntityState}

theorem consistent_run (h : s.Consistent committed) (a : Action σ) :
    (a.run s).Consistent (a.baseline s committed) := by
  have hquiet : ∀ {s' : Session σ}, Session.Quiet s s' → s'.Consistent fun id =>
      if id ∈ ([] : List EntityId) ∧ id ∉ s.dirty then s'.state? id else committed id :=
    fun hquiet => h.loads hquiet.loads
  cases a with
  | mutate m => exact (h.steps (m.run_steps s)).congr fun id => by simp [baseline, loaded]
  | select t text => exact h.loads (Session.loads_loadText s t text)
  | load t uri => exact h.loads (Session.loads_load s t uri)
  | register t => exact hquiet ⟨rfl, rfl, rfl, rfl, rfl, fun _ h => h⟩
  | listen f => exact hquiet ⟨rfl, rfl, rfl, rfl, rfl, fun _ h => h⟩
  | store f => exact hquiet ⟨rfl, rfl, rfl, rfl, rfl, fun _ h => h⟩

theorem consistent_runAll (h : s.Consistent committed) (actions : List (Action σ)) :
    (runAll s actions).Consistent (baselineAll s committed actions) := by
  induction actions generalizing s committed with
  | nil => exact h
  | cons a actions ih => exact ih (consistent_run h a)

end Action

namespace Session

variable {σ : Type} [GraphStore σ] {s : Session σ} {committed : EntityId → Option EntityState}

theorem Consistent.commitDuring (h : Consistent s committed)
    (hidle : s.journal.changes = [] → s.dirty = []) (trip : List (Action σ)) (outcome : Outcome) :
    match s.commitDuring trip outcome with
    | (.ok _, after) => Consistent after fun id =>
      if id ∈ s.dirty then s.state? id else s.baselineDuring trip committed id
    | (.error _, after) => Consistent after (s.baselineDuring trip committed) := by
  have hbegins := s.beginCommit_begins
  unfold Session.commitDuring commitWith baselineDuring
  generalize s.beginCommit = began at hbegins ⊢
  cases hbegins with
  | idle hempty => exact h.congr fun id => by simp [hidle hempty]
  | refused e => exact ⟨h.known, h.baseline, h.cached, h.pinned⟩
  | begun c hsome hchanges hupdate hstates =>
      have hbegun : Consistent s.underway committed :=
        ⟨h.known, h.baseline, h.cached, h.pinned⟩
      have hback := Action.consistent_runAll hbegun trip
      have hrecords := Action.records_runAll s.underway trip
      dsimp only
      by_cases haccepted : outcome = .accepted
      · subst haccepted
        have hknown : ∀ id ∈ s.dirty, id < (Action.runAll s.underway trip).entities.length :=
          fun id hid => hback.known id ((hrecords.dirty id).mpr (Or.inl hid))
        obtain ⟨settled, hended, hsettled⟩ := endCommit_of_accepted hknown hstates
        rw [hended]
        have hjournal : Consistent { Action.runAll s.underway trip with
            journal := ⟨(Action.runAll s.underway trip).journal.changes.drop
              c.batch.changes.length, false⟩ } (Action.baselineAll s.underway committed trip) :=
          ⟨hback.known, hback.baseline, hback.cached, hback.pinned⟩
        have hafter := hjournal.settled hsettled hknown (fun id hid => ?_) fun id hid hclean => ?_
        · exact ⟨hafter.known, hafter.baseline, hafter.cached, hafter.pinned⟩
        · obtain ⟨e, he⟩ := exists_entity? (h.known id hid)
          rw [state?, he]
          rfl
        · apply hrecords.kept id hid (h.known id hid)
          intro hnodes
          exact hclean ((hrecords.redirtied rfl id).mpr (Or.inr hnodes))
      · obtain ⟨cause, hfailed⟩ := endCommit_of_failed haccepted (Action.runAll s.underway trip) c
        rw [hfailed]
        exact ⟨hback.known, hback.baseline, hback.cached, hback.pinned⟩

end Session

namespace History

variable {σ : Type} [GraphStore σ]

theorem consistent_step {h : History σ} (htracks : h.session.Tracks h.queue)
    (hconsistent : h.session.Consistent h.committed) (op : Operation σ) :
    (h.step op).session.Consistent (h.step op).committed := by
  cases op with
  | act a => exact a.consistent_run hconsistent
  | commit trip outcome =>
      have hidle : h.session.journal.changes = [] → h.session.dirty = [] := by
        intro hempty
        have hqueue : h.queue = [] := List.map_eq_nil_iff.mp (htracks.changes.trans hempty)
        apply List.eq_nil_iff_forall_not_mem.mpr
        intro id hid
        simpa [hqueue] using (htracks.dirty id).mp hid
      have hcommit := hconsistent.commitDuring hidle trip outcome
      unfold step
      dsimp only
      generalize h.session.commitDuring trip outcome = committed at hcommit ⊢
      rcases committed with ⟨cause | count, after⟩
      · exact hcommit
      · exact hcommit
  | rollback => exact hconsistent.rollback

theorem consistent_run {h : History σ} (htracks : h.session.Tracks h.queue)
    (hconsistent : h.session.Consistent h.committed) (ops : List (Operation σ)) :
    (h.run ops).session.Consistent (h.run ops).committed := by
  induction ops generalizing h with
  | nil => exact hconsistent
  | cons op ops ih => exact ih (tracks_step htracks op) (consistent_step htracks hconsistent op)

omit [GraphStore σ] in
theorem consistent_start (store : σ) (suffixes : Suffixes) (cacheSize : Nat) :
    (start store suffixes cacheSize).session.Consistent
      (start store suffixes cacheSize).committed where
  known id hid := by simp [start, Session.ofStore] at hid
  baseline id := by simp [start, Session.ofStore, Session.entity?]
  cached key id hentry := by simp [start, Session.ofStore, Cache.ofSize] at hentry
  pinned key hkey := by simp [start, Session.ofStore, Cache.ofSize] at hkey

/-- A rollback after any run leaves nothing pending.  Every entity that was dirty is as it was
committed last, or deleted and out of the cache if it never was.  The others stay as they are. -/
theorem rollback_restores_committed (store : σ) (suffixes : Suffixes) (cacheSize : Nat)
    (ops : List (Operation σ)) :
    let h := (start store suffixes cacheSize).run ops
    let after := h.session.rollback
    after.journal.changes = [] ∧ after.dirty = [] ∧ after.cache.pinned = [] ∧
      (∀ id ∈ h.session.dirty, ∃ e, after.entity? id = some e ∧
        match h.committed id with
        | some state => e.values = state ∧ e.deleted = false
        | none => e.deleted = true ∧ after.cache.contains e.key = false ∧
          ∀ key, (key, some id) ∉ after.cache.entries) ∧
      ∀ id ∉ h.session.dirty, after.entity? id = h.session.entity? id := by
  intro h after
  have hconsistent := consistent_run (tracks_start store suffixes cacheSize)
    (consistent_start store suffixes cacheSize) ops
  have hrolled := Session.rolledBack_rollback hconsistent.known
  have hentity := Session.entity?_rollback hconsistent.known
  refine ⟨congrArg Journal.changes hrolled.journal, Session.rollback_dirty hconsistent.known,
    hconsistent.rollback_pinned, ?_, ?_⟩
  · intro id hid
    obtain ⟨e, he⟩ := Session.exists_entity? (hconsistent.known id hid)
    have hreverted : after.entity? id = some e.revert := by
      rw [hentity, he, Option.map_some, if_pos hid]
    have hbaseline : h.committed id = e.baseline := by
      rw [hconsistent.baseline id, he]
      rfl
    refine ⟨e.revert, hreverted, ?_⟩
    rw [hbaseline, Entity.baseline]
    cases hnew : e.isNew with
    | false => exact ⟨rfl, hnew⟩
    | true =>
        have hdropped := hconsistent.rollback_dropped hid he hnew
        exact ⟨hnew, hdropped⟩
  · intro id hid
    refine (hentity id).trans ?_
    cases h.session.entity? id with
    | none => rfl
    | some e => exact congrArg some (if_neg hid)

end History

end EntityMapping
