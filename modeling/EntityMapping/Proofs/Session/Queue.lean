import EntityMapping.Proofs.Session.Run

/-!
The dirty entities are those with changes in the queue.

Recording puts a change into the journal and its entity among the dirty ones.  A commit that
succeeds takes from both what they held when it began and was not touched since.
-/

namespace EntityMapping

namespace Session

variable {σ : Type} {s s' s'' : Session σ} {id : EntityId} {e : Entity} {c : Change}
  {nodes more : List (EntityId × Change)}

/-- Changes were recorded on the way from one session to another, and nothing else happened to the
queue and the dirty entities.  A dirty entity that recorded nothing is the same as before. -/
structure Records (s s' : Session σ) (nodes : List (EntityId × Change)) : Prop where
  changes : s'.journal.changes = s.journal.changes ++ nodes.map Prod.snd
  committing : s'.journal.committing = s.journal.committing
  dirty : ∀ id, id ∈ s'.dirty ↔ id ∈ s.dirty ∨ id ∈ nodes.map Prod.fst
  redirtied : s.journal.committing = true →
    ∀ id, id ∈ s'.redirtied ↔ id ∈ s.redirtied ∨ id ∈ nodes.map Prod.fst
  length : s.entities.length ≤ s'.entities.length
  known : ∀ id ∈ nodes.map Prod.fst, id < s'.entities.length
  kept : ∀ id ∈ s.dirty, id < s.entities.length → id ∉ nodes.map Prod.fst →
    s'.entity? id = s.entity? id

theorem Records.append (h : Records s s' nodes) (hmore : Records s' s'' more) :
    Records s s'' (nodes ++ more) where
  changes := by rw [hmore.changes, h.changes, List.map_append, List.append_assoc]
  committing := hmore.committing.trans h.committing
  dirty id := by rw [hmore.dirty, h.dirty, List.map_append, List.mem_append, or_assoc]
  redirtied hcommitting id := by
    rw [hmore.redirtied (h.committing.trans hcommitting), h.redirtied hcommitting,
      List.map_append, List.mem_append, or_assoc]
  length := Nat.le_trans h.length hmore.length
  known id hid := by
    rw [List.map_append, List.mem_append] at hid
    rcases hid with hid | hid
    · exact Nat.lt_of_lt_of_le (h.known id hid) hmore.length
    · exact hmore.known id hid
  kept id hid hknown hnodes := by
    rw [List.map_append, List.mem_append, not_or] at hnodes
    rw [hmore.kept id ((h.dirty id).mpr (Or.inl hid)) (Nat.lt_of_lt_of_le hknown h.length)
      hnodes.2, h.kept id hid hknown hnodes.1]

theorem records_loads {ids : List EntityId} (h : Loads s ids s') : Records s s' [] := by
  obtain ⟨hjournal, hdirty, hredirtied, hlength⟩ := h.records_nothing
  refine ⟨?_, ?_, fun id => ?_, fun _ id => ?_, hlength, nofun, fun id hid hknown _ => ?_⟩
  · simp [hjournal]
  · rw [hjournal]
  · simp [hdirty]
  · simp [hredirtied]
  · exact h.entity?_eq hknown (Or.inr hid)

theorem records_quiet (h : Quiet s s') : Records s s' [] := records_loads h.loads

/-- Recording a change of an entity that is all that has changed. -/
theorem records_record (hjournal : s'.journal = s.journal) (hdirty : s'.dirty = s.dirty)
    (hredirtied : s'.redirtied = s.redirtied) (hlength : s.entities.length ≤ s'.entities.length)
    (hkept : ∀ other < s.entities.length, other ≠ id → s'.entity? other = s.entity? other)
    (he : s'.entity? id = some e) (c : Change) : Records s (s'.record id c) [(id, c)] := by
  obtain ⟨hknown, -⟩ := List.getElem?_eq_some_iff.mp he
  rw [record_eq he, hjournal, hdirty, hredirtied]
  constructor
  · rfl
  · rfl
  · intro other
    simpa using mem_withId
  · intro hcommitting other
    simp only [if_pos hcommitting]
    simpa using mem_withId
  · exact hlength
  · intro other hother
    obtain rfl := List.mem_singleton.mp hother
    exact hknown
  · intro other _ hother hne
    exact hkept other hother fun heq => hne (List.mem_singleton.mpr heq)

/-- What a mutation records, it records for its entity. -/
theorem records_steps {m : Mutation} (h : m.Steps s s') :
    ∃ changes : List Change, Records s s' (changes.map fun c => (m.author s, c)) := by
  cases h with
  | refused m suffixes => exact ⟨[], records_quiet ⟨rfl, rfl, rfl, rfl, rfl, fun _ h => h⟩⟩
  | @changed m e after c he hafter hvalue =>
      have hentity := entity?_setEntity s he after
      have hrecords : Records s ((s.setEntity (m.author s) after).record (m.author s) c)
          [(m.author s, c)] := by
        refine records_record ?_ ?_ ?_ ?_ (fun other _ hne => ?_) ((hentity _).trans (if_pos rfl)) c
        · rfl
        · rfl
        · rfl
        · simp [setEntity]
        · rw [hentity, if_neg hne]
      exact ⟨[c], hrecords⟩
  | @created t values d hdraft =>
      have hentity := entity?_addEntity { s with suffixes := s.suffixes.next.2 }
        (.created t (s.freshIri t) d.state)
      have hrecords : Records s
          ({ s with suffixes := s.suffixes.next.2 }.keepCreated t (s.freshIri t) d).2
          [(s.entities.length,
            .create (s.freshIri t) (Change.separator.intercalate d.updates))] := by
        refine records_record ?_ ?_ ?_ ?_ (fun other _ hne => ?_) ((hentity _).trans (if_pos rfl)) _
        · rfl
        · rfl
        · rfl
        · simp [addEntity]
        · exact (hentity other).trans (if_neg hne)
      exact ⟨[_], hrecords⟩

end Session

namespace Action

variable {σ : Type} [GraphStore σ]

theorem records_run (s : Session σ) (a : Action σ) :
    Session.Records s (a.run s) (a.recorded s) := by
  cases a with
  | mutate m =>
      obtain ⟨changes, hrecords⟩ := Session.records_steps (m.run_steps s)
      have hchanges : m.recorded s = changes := by
        rw [Mutation.recorded, hrecords.changes, List.drop_left, List.map_map]
        exact List.map_id changes
      have hnodes : recorded s (.mutate m) = changes.map fun c => (m.author s, c) :=
        congrArg (List.map _) hchanges
      rw [hnodes]
      exact hrecords
  | select t text => exact Session.records_loads (Session.loads_loadText s t text)
  | load t uri => exact Session.records_loads (Session.loads_load s t uri)
  | register t => exact Session.records_quiet ⟨rfl, rfl, rfl, rfl, rfl, fun _ h => h⟩
  | listen f => exact Session.records_quiet ⟨rfl, rfl, rfl, rfl, rfl, fun _ h => h⟩
  | store f => exact Session.records_quiet ⟨rfl, rfl, rfl, rfl, rfl, fun _ h => h⟩

theorem records_runAll (s : Session σ) (actions : List (Action σ)) :
    Session.Records s (runAll s actions) (recordedAll s actions) := by
  induction actions generalizing s with
  | nil => exact Session.records_quiet (.refl s)
  | cons a actions ih => exact (records_run s a).append (ih (a.run s))

end Action

namespace Session

variable {σ : Type} {s s' : Session σ} {queue nodes : List (EntityId × Change)}

/-- The queue names, for every change in the journal, the entity that recorded it, and the dirty
entities are those in the queue. -/
structure Tracks (s : Session σ) (queue : List (EntityId × Change)) : Prop where
  changes : queue.map Prod.snd = s.journal.changes
  dirty : ∀ id, id ∈ s.dirty ↔ id ∈ queue.map Prod.fst
  known : ∀ id ∈ s.dirty, id < s.entities.length

theorem Tracks.dirty_iff (h : Tracks s queue) (id : EntityId) :
    id ∈ s.dirty ↔ ∃ c, (id, c) ∈ queue := by
  rw [h.dirty]
  simp

theorem Tracks.append (h : Tracks s queue) (hrecords : Records s s' nodes) :
    Tracks s' (queue ++ nodes) where
  changes := by rw [List.map_append, h.changes, hrecords.changes]
  dirty id := by rw [hrecords.dirty, h.dirty, List.map_append, List.mem_append]
  known id hid := by
    rcases (hrecords.dirty id).mp hid with hid | hid
    · exact Nat.lt_of_lt_of_le (h.known id hid) hrecords.length
    · exact hrecords.known id hid

/-- What was in the queue when a commit began leaves it, with the entities that did not change
since. -/
theorem Tracks.endCommit {begun back : Session σ} (h : Tracks begun queue)
    (hrecords : Records begun back nodes) (hcommitting : begun.journal.committing = true)
    (hredirtied : begun.redirtied = []) {c : Commit}
    (hchanges : c.batch.changes = begun.journal.changes) (hstates : c.states = begun.dirtyStates) :
    ∃ after, back.endCommit c .accepted = (.ok c.batch.changes.length, after) ∧
      Tracks after nodes := by
  have hback := h.append hrecords
  have hknown : ∀ id ∈ begun.dirty, id < back.entities.length := fun id hid =>
    hback.known id ((hrecords.dirty id).mpr (Or.inl hid))
  obtain ⟨settled, hended, hsettled⟩ := endCommit_of_accepted hknown hstates
  refine ⟨_, hended, ?_, fun id => ?_, fun id hid => ?_⟩
  · refine Eq.trans ?_ (congrArg Journal.changes hsettled.journal).symm
    rw [hchanges, hrecords.changes, List.drop_left]
  · have hnodes := hrecords.redirtied hcommitting id
    rw [hredirtied] at hnodes
    refine (hsettled.dirty id).trans ?_
    rw [hrecords.dirty, hnodes]
    simp only [List.not_mem_nil, false_or]
    tauto
  · have hdirty := ((hsettled.dirty id).mp hid).1
    exact (hsettled.known id).mpr (hback.known id hdirty)

variable [GraphStore σ]

theorem Tracks.commitDuring (h : Tracks s queue) (trip : List (Action σ)) (outcome : Outcome) :
    match s.commitDuring trip outcome with
    | (.ok _, after) => Tracks after (s.recordedDuring trip)
    | (.error _, after) => Tracks after (queue ++ s.recordedDuring trip) := by
  have hbegins := s.beginCommit_begins
  unfold Session.commitDuring commitWith recordedDuring
  generalize s.beginCommit = began at hbegins ⊢
  cases hbegins with
  | idle hempty =>
      have hqueue : queue = [] := List.map_eq_nil_iff.mp (h.changes.trans hempty)
      exact hqueue ▸ h
  | refused e =>
      simp only [List.append_nil]
      exact ⟨h.changes, h.dirty, h.known⟩
  | begun c hsome hchanges hupdate hstates =>
      have hbegun : Tracks s.underway queue := ⟨h.changes, h.dirty, h.known⟩
      have hrecords := Action.records_runAll s.underway trip
      dsimp only
      by_cases haccepted : outcome = .accepted
      · subst haccepted
        obtain ⟨after, hended, hafter⟩ := hbegun.endCommit hrecords rfl rfl hchanges hstates
        rw [hended]
        exact hafter
      · obtain ⟨cause, hfailed⟩ := endCommit_of_failed haccepted
          (Action.runAll s.underway trip) c
        rw [hfailed]
        have hback := hbegun.append hrecords
        exact ⟨hback.changes, hback.dirty, hback.known⟩

omit [GraphStore σ] in
theorem Tracks.rollback (h : Tracks s queue) : Tracks s.rollback [] := by
  have hrolled := rolledBack_foldl { s with journal := s.journal.clear } h.known
  constructor
  · exact (congrArg Journal.changes hrolled.journal).symm
  · intro id
    refine (hrolled.dirty id).trans ?_
    simp
  · intro id hid
    exact (hrolled.known id).mpr (h.known id ((hrolled.dirty id).mp hid).1)

end Session

namespace History

variable {σ : Type} [GraphStore σ]

theorem tracks_step {h : History σ} (htracks : h.session.Tracks h.queue) (op : Operation σ) :
    (h.step op).session.Tracks (h.step op).queue := by
  cases op with
  | act a => exact htracks.append (a.records_run h.session)
  | commit trip outcome =>
      have hcommit := htracks.commitDuring trip outcome
      unfold step
      dsimp only
      generalize h.session.commitDuring trip outcome = committed at hcommit ⊢
      rcases committed with ⟨cause | count, after⟩
      · exact hcommit
      · exact hcommit
  | rollback => exact htracks.rollback

theorem tracks_run {h : History σ} (htracks : h.session.Tracks h.queue)
    (ops : List (Operation σ)) : (h.run ops).session.Tracks (h.run ops).queue := by
  induction ops generalizing h with
  | nil => exact htracks
  | cons op ops ih => exact ih (tracks_step htracks op)

omit [GraphStore σ] in
theorem tracks_start (store : σ) (suffixes : Suffixes) (cacheSize : Nat) :
    (start store suffixes cacheSize).session.Tracks (start store suffixes cacheSize).queue :=
  ⟨rfl, fun id => by simp [start, Session.ofStore], fun id hid => by
    simp [start, Session.ofStore] at hid⟩

/-- In every state that a run reaches, an entity is dirty exactly if some change that it recorded
waits in the journal.  A commit that succeeds leaves what was recorded while it was on its way, and
one that fails loses nothing. -/
theorem dirty_iff_queued (store : σ) (suffixes : Suffixes) (cacheSize : Nat)
    (ops : List (Operation σ)) :
    let h := (start store suffixes cacheSize).run ops
    h.queue.map Prod.snd = h.session.journal.changes ∧
      (∀ id, id ∈ h.session.dirty ↔ ∃ c, (id, c) ∈ h.queue) ∧
      ∀ trip outcome,
        match h.session.commitDuring trip outcome with
        | (.ok _, after) =>
          after.journal.changes = (h.session.recordedDuring trip).map Prod.snd ∧
            ∀ id, id ∈ after.dirty ↔ ∃ c, (id, c) ∈ h.session.recordedDuring trip
        | (.error _, after) =>
          h.session.journal.changes <+: after.journal.changes ∧
            h.session.dirty ⊆ after.dirty := by
  intro h
  have htracks := tracks_run (tracks_start store suffixes cacheSize) ops
  refine ⟨htracks.changes, htracks.dirty_iff, fun trip outcome => ?_⟩
  have hcommit := htracks.commitDuring trip outcome
  change match h.session.commitDuring trip outcome with
    | (.ok _, after) => after.Tracks (h.session.recordedDuring trip)
    | (.error _, after) => after.Tracks (h.queue ++ h.session.recordedDuring trip) at hcommit
  generalize h.session.commitDuring trip outcome = committed at hcommit ⊢
  rcases committed with ⟨cause | count, after⟩
  · have hchanges := hcommit.changes
    rw [List.map_append, htracks.changes] at hchanges
    refine ⟨⟨_, hchanges⟩, fun id hid => (hcommit.dirty id).mpr ?_⟩
    rw [List.map_append]
    exact List.mem_append_left _ ((htracks.dirty id).mp hid)
  · exact ⟨hcommit.changes.symm, hcommit.dirty_iff⟩

end History

end EntityMapping
