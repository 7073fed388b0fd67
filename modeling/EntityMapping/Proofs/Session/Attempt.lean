import EntityMapping.Proofs.Change.Edit
import EntityMapping.Proofs.Session.Queue

/-!
Commits that are tried while a commit is on its way.

Such an attempt is refused, but it forgets which entities changed since the commit under way began.
Nothing else reads these marks before the commit ends, so everything goes on as if there had been no
attempt.  At the end an entity whose mark was forgotten is taken for clean, though a change of its
own still waits.
-/

namespace EntityMapping

namespace Session

variable {σ : Type}

/-- The session with other marks on the entities that changed since the commit under way began. -/
def withMarks (s : Session σ) (marks : List EntityId) : Session σ :=
  { s with redirtied := marks }

/-! ### Nothing but the end of a commit reads the marks -/

theorem foldl_notify_withMarks (s : Session σ) (marks : List EntityId) (vs : List Violation) :
    vs.foldl notify (s.withMarks marks) = (vs.foldl notify s).withMarks marks := by
  induction vs generalizing s with
  | nil => rfl
  | cons v vs ih => exact ih (s.notify v)

theorem refresh_withMarks (s : Session σ) (marks : List EntityId) (id : EntityId)
    (state : EntityState) :
    (s.withMarks marks).refresh id state = (s.refresh id state).withMarks marks := by
  have hdirty : (s.withMarks marks).isDirty id = s.isDirty id := rfl
  have hentity : (s.withMarks marks).entity? id = s.entity? id := rfl
  unfold refresh
  rw [hdirty, hentity]
  cases s.isDirty id with
  | true => rfl
  | false =>
      cases s.entity? id with
      | none => rfl
      | some e => rfl

theorem instantiate_withMarks (s : Session σ) (marks : List EntityId) (t : EntityType)
    (uri : String) (rows : List Row) :
    (s.withMarks marks).instantiate t uri rows =
      ((s.instantiate t uri rows).1, (s.instantiate t uri rows).2.withMarks marks) := by
  unfold instantiate
  rw [foldl_notify_withMarks]
  generalize (t.violationsIn uri rows).foldl notify s = told
  have hcached : (told.withMarks marks).cached t uri =
      ((told.cached t uri).1, (told.cached t uri).2.withMarks marks) := rfl
  dsimp only
  rw [hcached]
  rcases told.cached t uri with ⟨found, touched⟩
  cases found with
  | none => rfl
  | some id => simp only [refresh_withMarks]

theorem instantiateAll_withMarks (s : Session σ) (marks : List EntityId) (t : EntityType)
    (rows : List Row) (uris : List String) :
    (s.withMarks marks).instantiateAll t rows uris =
      ((s.instantiateAll t rows uris).1, (s.instantiateAll t rows uris).2.withMarks marks) := by
  induction uris generalizing s with
  | nil => rfl
  | cons uri rest ih => simp only [instantiateAll, instantiate_withMarks, ih]

/-- Recording a change adds to the marks, whatever they are. -/
theorem record_withMarks {s : Session σ} {id : EntityId} {e : Entity} (he : s.entity? id = some e)
    (marks : List EntityId) (c : Change) :
    ∃ marks', (s.withMarks marks).record id c = (s.record id c).withMarks marks' := by
  have hmarked : (s.withMarks marks).entity? id = some e := he
  rw [record_eq he, record_eq hmarked]
  exact ⟨_, rfl⟩

theorem mutate_withMarks (s : Session σ) (marks : List EntityId) (id : EntityId)
    (f : Entity → Except MappingError (Option (Entity × Change))) :
    ∃ marks', ((s.withMarks marks).mutate id f).toOption.getD (s.withMarks marks) =
      ((s.mutate id f).toOption.getD s).withMarks marks' := by
  have hentity : (s.withMarks marks).entity? id = s.entity? id := rfl
  unfold mutate
  rw [hentity]
  cases he : s.entity? id with
  | none => exact ⟨marks, rfl⟩
  | some e =>
      rcases hmutated : f e with cause | - | ⟨after, c⟩
      · simp only [hmutated]
        exact ⟨marks, rfl⟩
      · simp only [hmutated]
        exact ⟨marks, rfl⟩
      · simp only [hmutated]
        have hafter := (entity?_setEntity s he after id).trans (if_pos rfl)
        exact record_withMarks hafter marks c

theorem create_withMarks (s : Session σ) (marks : List EntityId) (t : EntityType)
    (values : InitialValues) :
    ∃ marks', ((s.withMarks marks).create t values).2 = (s.create t values).2.withMarks marks' := by
  have hsuffixes : (s.withMarks marks).suffixes = s.suffixes := rfl
  unfold create
  cases t.checkInitial values with
  | error cause => exact ⟨marks, rfl⟩
  | ok checked =>
      dsimp only
      rw [hsuffixes]
      cases hdraft : t.draft (t.namespaceIri ++ t.anchor ++ s.suffixes.next.1) values with
      | error cause =>
          exact ⟨marks, rfl⟩
      | ok d =>
          have hadded := entity?_addEntity { s with suffixes := s.suffixes.next.2 }
            (.created t (s.freshIri t) d.state) s.entities.length
          exact record_withMarks (hadded.trans (if_pos rfl)) marks _

end Session

theorem Mutation.run_withMarks {σ : Type} (m : Mutation) (s : Session σ) (marks : List EntityId) :
    ∃ marks', m.run (s.withMarks marks) = (m.run s).withMarks marks' := by
  cases m with
  | create t values => exact s.create_withMarks marks t values
  | set id name v => exact s.mutate_withMarks marks id _
  | add id name v => exact s.mutate_withMarks marks id _
  | remove id name v => exact s.mutate_withMarks marks id _
  | delete id => exact s.mutate_withMarks marks id _
  | redirect id target => exact s.mutate_withMarks marks id _

theorem Mutation.recorded_withMarks {σ : Type} (m : Mutation) (s : Session σ)
    (marks : List EntityId) : m.recorded (s.withMarks marks) = m.recorded s := by
  obtain ⟨marks', hrun⟩ := m.run_withMarks s marks
  unfold recorded
  rw [hrun]
  rfl

theorem Mutation.author_withMarks {σ : Type} (m : Mutation) (s : Session σ)
    (marks : List EntityId) : m.author (s.withMarks marks) = m.author s := by
  cases m <;> rfl

namespace Session

variable {σ : Type} [GraphStore σ]

theorem loadText_withMarks (s : Session σ) (marks : List EntityId) (t : EntityType)
    (text : String) :
    ((s.withMarks marks).loadText t text).2 = (s.loadText t text).2.withMarks marks := by
  have hasked : (s.withMarks marks).ask text =
      ((s.ask text).1, (s.ask text).2.withMarks marks) := rfl
  unfold loadText
  rw [hasked]
  rcases s.ask text with ⟨answer, asked⟩
  cases answer with
  | error e => rfl
  | ok rows => exact congrArg Prod.snd (asked.instantiateAll_withMarks marks t rows _)

theorem load_withMarks (s : Session σ) (marks : List EntityId) (t : EntityType) (uri : String) :
    ((s.withMarks marks).load t uri).2 = (s.load t uri).2.withMarks marks := by
  have hcached : (s.withMarks marks).cached t uri =
      ((s.cached t uri).1, (s.cached t uri).2.withMarks marks) := rfl
  unfold load
  rw [hcached]
  rcases s.cached t uri with ⟨found, touched⟩
  cases found with
  | some id => rfl
  | none =>
      dsimp only
      cases checkIri uri with
      | error e => rfl
      | ok iri => exact touched.loadText_withMarks marks t _

end Session

namespace Action

variable {σ : Type} [GraphStore σ]

theorem run_withMarks (s : Session σ) (marks : List EntityId) (a : Action σ) :
    ∃ marks', a.run (s.withMarks marks) = (a.run s).withMarks marks' := by
  cases a with
  | mutate m => exact m.run_withMarks s marks
  | select t text => exact ⟨marks, s.loadText_withMarks marks t text⟩
  | load t uri => exact ⟨marks, s.load_withMarks marks t uri⟩
  | register t => exact ⟨marks, rfl⟩
  | listen f => exact ⟨marks, rfl⟩
  | store f => exact ⟨marks, rfl⟩

omit [GraphStore σ] in
theorem recorded_withMarks (s : Session σ) (marks : List EntityId) (a : Action σ) :
    a.recorded (s.withMarks marks) = a.recorded s := by
  cases a with
  | mutate m => rw [recorded, recorded, m.recorded_withMarks, m.author_withMarks]
  | _ => rfl

end Action

/-- What happens while a commit is on its way: an action, or an attempt to commit once more,
whatever would happen while that commit is on its way. -/
inductive Event (σ : Type) where
  | act (a : Action σ)
  | attempt (trip : String → Session σ → Outcome × Session σ)

namespace Event

variable {σ : Type} [GraphStore σ]

/-- The session after an event; the error of an attempt is caught. -/
def run (s : Session σ) : Event σ → Session σ
  | .act a => a.run s
  | .attempt trip => (s.commitWith trip).2

/-- The session after several events. -/
def runAll (s : Session σ) (events : List (Event σ)) : Session σ :=
  events.foldl run s

/-- The actions among some events. -/
def actions : List (Event σ) → List (Action σ)
  | [] => []
  | .act a :: rest => a :: actions rest
  | .attempt _ :: rest => actions rest

/-- The entities that changed since the last attempt, or since the beginning, before which those
with the given numbers had changed. -/
def changedSince (s : Session σ) (ids : List EntityId) : List (Event σ) → List EntityId
  | [] => ids
  | .act a :: rest => changedSince (a.run s) (ids ++ (a.recorded s).map Prod.fst) rest
  | .attempt _ :: rest => changedSince s [] rest

end Event

namespace Session

variable {σ : Type}

/-! ### On the way -/

/-- A commit is refused while another one is on its way, which still has something to deliver. -/
theorem commitWith_of_committing {s : Session σ} (hcommitting : s.journal.committing = true)
    (hsome : s.journal.changes ≠ []) (trip : String → Session σ → Outcome × Session σ) :
    s.commitWith trip = (.error .inProgress, s.withMarks []) := by
  have hstart : s.journal.start = .error .inProgress := by
    simp only [Journal.start, hcommitting, if_true]
  simp [commitWith, beginCommit, hsome, hstart, withMarks]

end Session

namespace Event

variable {σ : Type} [GraphStore σ]

theorem mem_of_mem_changedSince {s : Session σ} {ids : List EntityId} {events : List (Event σ)}
    {id : EntityId} (h : id ∈ changedSince s ids events) :
    id ∈ ids ∨ id ∈ (Action.recordedAll s (actions events)).map Prod.fst := by
  induction events generalizing s ids with
  | nil => exact Or.inl h
  | cons event events ih =>
      cases event with
      | act a =>
          rw [actions, Action.recordedAll, List.map_append, List.mem_append]
          rcases ih h with hid | hid
          · exact (List.mem_append.mp hid).imp_right Or.inl
          · exact Or.inr (Or.inr hid)
      | attempt trip =>
          exact (ih h).imp_left fun hid => absurd hid List.not_mem_nil

/-- Attempts change nothing but the marks, and leave those of the entities that changed since. -/
theorem exists_runAll_eq {s : Session σ} (hcommitting : s.journal.committing = true)
    (hsome : s.journal.changes ≠ []) (marks ids : List EntityId)
    (hmarks : ∀ id, id ∈ marks ↔ id ∈ ids) (events : List (Event σ)) :
    ∃ marks', runAll (s.withMarks marks) events =
        (Action.runAll s (actions events)).withMarks marks' ∧
      ∀ id, id ∈ marks' ↔ id ∈ changedSince s ids events := by
  induction events generalizing s marks ids with
  | nil => exact ⟨marks, rfl, hmarks⟩
  | cons event events ih =>
      cases event with
      | act a =>
          have hrecords := a.records_run s
          have hmarked := a.records_run (s.withMarks marks)
          obtain ⟨marks', hrun⟩ := a.run_withMarks s marks
          rw [a.recorded_withMarks, hrun] at hmarked
          have hnext : ∀ id, id ∈ marks' ↔ id ∈ ids ++ (a.recorded s).map Prod.fst := by
            intro id
            rw [List.mem_append, ← hmarks]
            exact hmarked.redirtied hcommitting id
          have hleft : (a.run s).journal.changes ≠ [] := by
            rw [hrecords.changes]
            exact List.append_ne_nil_of_left_ne_nil hsome _
          obtain ⟨last, hlast⟩ := ih (hrecords.committing.trans hcommitting) hleft _ _ hnext
          refine ⟨last, ?_⟩
          rw [runAll, List.foldl_cons, run, hrun]
          exact hlast
      | attempt trip =>
          obtain ⟨last, hlast⟩ := ih hcommitting hsome [] [] fun id => Iff.rfl
          refine ⟨last, ?_⟩
          have hrefused := Session.commitWith_of_committing (s := s.withMarks marks) hcommitting
            hsome trip
          rw [runAll, List.foldl_cons, run, hrefused]
          exact hlast

end Event

namespace Session

variable {σ : Type}

/-! ### At the end -/

theorem settle_redirtied (s : Session σ) (committed : EntityId × EntityState) :
    (s.settle committed).redirtied = s.redirtied := by
  obtain ⟨id, state⟩ := committed
  cases he : s.entity? id with
  | none => simp [settle, markCommitted, he]
  | some e =>
      by_cases hid : id ∈ s.redirtied
      · rw [settle_of_redirtied hid he]
        rfl
      · rw [settle_of_clean hid he]
        rfl

/-- Settling an entity asks for its own mark only. -/
theorem settle_withMarks {s : Session σ} {marks : List EntityId}
    {committed : EntityId × EntityState}
    (hmark : committed.1 ∈ marks ↔ committed.1 ∈ s.redirtied) :
    (s.withMarks marks).settle committed = (s.settle committed).withMarks marks := by
  obtain ⟨id, state⟩ := committed
  have hentity : (s.withMarks marks).entity? id = s.entity? id := rfl
  cases he : s.entity? id with
  | none =>
      have hnone := hentity.trans he
      simp only [settle, markCommitted, he, hnone, ite_self]
  | some e =>
      have hsome := hentity.trans he
      by_cases hid : id ∈ s.redirtied
      · rw [settle_of_redirtied hid he, settle_of_redirtied (hmark.mpr hid) hsome]
        rfl
      · rw [settle_of_clean hid he, settle_of_clean (fun h => hid (hmark.mp h)) hsome]
        rfl

theorem settleAll_withMarks {s : Session σ} {marks : List EntityId}
    {states : List (EntityId × EntityState)}
    (hmarks : ∀ committed ∈ states, committed.1 ∈ marks ↔ committed.1 ∈ s.redirtied) :
    states.foldl settle (s.withMarks marks) = (states.foldl settle s).withMarks marks := by
  induction states generalizing s with
  | nil => rfl
  | cons committed states ih =>
      rw [List.foldl_cons, List.foldl_cons, settle_withMarks (hmarks committed List.mem_cons_self)]
      apply ih
      intro other hother
      rw [settle_redirtied]
      exact hmarks other (List.mem_cons_of_mem committed hother)

theorem endCommit_withMarks_of_failed {outcome : Outcome} (h : outcome ≠ .accepted)
    (s : Session σ) (marks : List EntityId) (c : Commit) :
    (s.withMarks marks).endCommit c outcome =
      ((s.endCommit c outcome).1, (s.endCommit c outcome).2.withMarks marks) := by
  cases outcome with
  | accepted => exact absurd rfl h
  | rejected cause => rfl
  | interrupted => rfl

theorem endCommit_withMarks_of_accepted {s : Session σ} {marks : List EntityId} {c : Commit}
    (hmarks : ∀ committed ∈ c.states, committed.1 ∈ marks ↔ committed.1 ∈ s.redirtied) :
    (s.withMarks marks).endCommit c .accepted = s.endCommit c .accepted := by
  have hsettled := settleAll_withMarks (s := { s with journal :=
    ⟨s.journal.changes.drop c.batch.changes.length, false⟩ }) hmarks
  simp only [endCommit, Journal.finish]
  change (_, { c.states.foldl settle (withMarks { s with journal :=
    ⟨s.journal.changes.drop c.batch.changes.length, false⟩ } marks) with redirtied := [] }) = _
  rw [hsettled]
  rfl

/-- The state of an entity, and whether it is deleted. -/
def shown? (s : Session σ) (id : EntityId) : Option (EntityState × Bool) :=
  (s.entity? id).map fun e => (e.values, e.deleted)

theorem Settled.shown?_eq {s s' : Session σ} {states : EntityId → EntityState}
    {ids : List EntityId} (h : Settled s states ids s') (id : EntityId) :
    s'.shown? id = s.shown? id := by
  rw [shown?, h.entity, Option.map_map]
  refine congrArg (Option.map · _) (funext fun e => ?_)
  dsimp only [Function.comp_apply]
  split <;> rfl

/-- With other marks a commit that succeeds ends with the same result, the same journal and entities
that look the same.  All is the same exactly if the marks on the entities that are settled are. -/
theorem endCommit_withMarks_eq_iff {back : Session σ} (begun : Session σ) {c : Commit}
    (marks : List EntityId) (hknown : ∀ id ∈ begun.dirty, id < back.entities.length)
    (hdirty : ∀ id ∈ begun.dirty, id ∈ back.dirty) (hstates : c.states = begun.dirtyStates) :
    let amid := (back.withMarks marks).endCommit c .accepted
    let plain := back.endCommit c .accepted
    amid.1 = plain.1 ∧ amid.2.journal = plain.2.journal ∧
      (∀ id, amid.2.shown? id = plain.2.shown? id) ∧
      ((∃ others, amid.2 = plain.2.withMarks others) ↔
        ∀ id ∈ begun.dirty, id ∈ marks ↔ id ∈ back.redirtied) := by
  intro amid plain
  obtain ⟨settled, hplain, hsettled⟩ := endCommit_of_accepted hknown hstates
  obtain ⟨settled', hamid, hsettled'⟩ :=
    endCommit_of_accepted (s := back.withMarks marks) hknown hstates
  refine ⟨?_, ?_, fun id => ?_, ?_, ?_⟩
  · exact (congrArg Prod.fst hamid).trans (congrArg Prod.fst hplain).symm
  · change ((back.withMarks marks).endCommit c .accepted).2.journal =
      (back.endCommit c .accepted).2.journal
    rw [hamid, hplain]
    exact hsettled'.journal.trans hsettled.journal.symm
  · change ((back.withMarks marks).endCommit c .accepted).2.shown? id =
      (back.endCommit c .accepted).2.shown? id
    rw [hamid, hplain]
    exact (hsettled'.shown?_eq id).trans (hsettled.shown?_eq id).symm
  · -- an entity stays dirty exactly if it is marked
    rintro ⟨others, hsame⟩ id hid
    have hleft : id ∈ amid.2.dirty ↔ id ∈ plain.2.dirty := by rw [hsame]; rfl
    change id ∈ ((back.withMarks marks).endCommit c .accepted).2.dirty ↔
      id ∈ (back.endCommit c .accepted).2.dirty at hleft
    rw [hamid, hplain] at hleft
    have hmarked := hsettled'.dirty id
    have hplainly := hsettled.dirty id
    have hback := hdirty id hid
    constructor
    · intro h
      exact (hplainly.mp (hleft.mp (hmarked.mpr ⟨hback, fun _ => h⟩))).2 hid
    · intro h
      exact (hmarked.mp (hleft.mpr (hplainly.mpr ⟨hback, fun _ => h⟩))).2 hid
  · intro hmarks
    refine ⟨plain.2.redirtied, congrArg Prod.snd (endCommit_withMarks_of_accepted ?_)⟩
    intro committed hcommitted
    rw [hstates] at hcommitted
    obtain ⟨id, hid, rfl⟩ := List.mem_map.mp hcommitted
    exact hmarks id hid

variable [GraphStore σ]

/-- Commits to a store that gives the outcome, while actions are carried out and commits are
tried. -/
def commitAmid (s : Session σ) (events : List (Event σ)) (outcome : Outcome) :
    Except CommitError Nat × Session σ :=
  s.commitWith fun _ s => (outcome, Event.runAll s events)

/-- Wherever a commit is tried while another one is on its way, it is refused. -/
theorem commitWith_amid {s : Session σ} (hsome : s.journal.changes ≠ []) (events : List (Event σ))
    (trip : String → Session σ → Outcome × Session σ) :
    (Event.runAll s.underway events).commitWith trip =
      (.error .inProgress, (Event.runAll s.underway events).withMarks []) := by
  obtain ⟨marks, hrun, -⟩ := Event.exists_runAll_eq (s := s.underway) rfl hsome [] []
    (fun id => Iff.rfl) events
  have hrecords := Action.records_runAll s.underway (Event.actions events)
  have hleft : (Action.runAll s.underway (Event.actions events)).journal.changes ≠ [] := by
    rw [hrecords.changes]
    exact List.append_ne_nil_of_left_ne_nil hsome _
  have hunmarked : s.underway.withMarks [] = s.underway := rfl
  rw [hunmarked] at hrun
  rw [hrun]
  exact commitWith_of_committing (s := (Action.runAll s.underway (Event.actions events)).withMarks
    marks) hrecords.committing hleft trip

/-- Attempts to commit while a commit is on its way are refused, and the commit comes to what it
comes to without them: the same result, the same journal, and entities with the same values.
Everything else is the same as well unless the commit succeeds and an entity that was dirty when it
began changed meanwhile, but not since the last attempt. -/
theorem commitAmid_eq_iff (s : Session σ) (hknown : ∀ id ∈ s.dirty, id < s.entities.length)
    (events : List (Event σ)) (outcome : Outcome) :
    let amid := s.commitAmid events outcome
    let plain := s.commitDuring (Event.actions events) outcome
    (∀ before trip, s.journal.changes ≠ [] →
      (Event.runAll s.underway before).commitWith trip =
        (.error .inProgress, (Event.runAll s.underway before).withMarks [])) ∧
      amid.1 = plain.1 ∧ amid.2.journal = plain.2.journal ∧
      (∀ id, amid.2.shown? id = plain.2.shown? id) ∧
      ((∃ marks, amid.2 = plain.2.withMarks marks) ↔ outcome ≠ .accepted ∨
        ∀ id ∈ s.dirty, id ∈ (s.recordedDuring (Event.actions events)).map Prod.fst →
          id ∈ Event.changedSince s.underway [] events) := by
  refine ⟨fun before trip hsome => commitWith_amid hsome before trip, ?_⟩
  have hbegins := s.beginCommit_begins
  unfold commitAmid commitDuring commitWith recordedDuring
  generalize s.beginCommit = began at hbegins
  cases hbegins with
  | idle hempty => exact ⟨rfl, rfl, fun _ => rfl, fun _ => by simp, fun _ => ⟨_, rfl⟩⟩
  | refused e => exact ⟨rfl, rfl, fun _ => rfl, fun _ => by simp, fun _ => ⟨_, rfl⟩⟩
  | begun c hsome hchanges hupdate hstates =>
      obtain ⟨marks, hrun, hmarks⟩ := Event.exists_runAll_eq (s := s.underway) rfl hsome [] []
        (fun id => Iff.rfl) events
      have hunmarked : s.underway.withMarks [] = s.underway := rfl
      have hrecords := Action.records_runAll s.underway (Event.actions events)
      rw [hunmarked] at hrun
      dsimp only
      rw [hrun]
      by_cases haccepted : outcome = .accepted
      · subst haccepted
        have hdirty : ∀ id ∈ s.dirty,
            id ∈ (Action.runAll s.underway (Event.actions events)).dirty := fun id hid =>
          (hrecords.dirty id).mpr (Or.inl hid)
        have hlonger : ∀ id ∈ s.dirty,
            id < (Action.runAll s.underway (Event.actions events)).entities.length := fun id hid =>
          Nat.lt_of_lt_of_le (hknown id hid) hrecords.length
        -- without attempts everything that recorded a change is marked
        have hredirtied : ∀ id, id ∈ (Action.runAll s.underway (Event.actions events)).redirtied ↔
            id ∈ (Action.recordedAll s.underway (Event.actions events)).map Prod.fst := fun id =>
          (hrecords.redirtied rfl id).trans (or_iff_right List.not_mem_nil)
        obtain ⟨hresult, hjournal, hshown, hsame⟩ := endCommit_withMarks_eq_iff
          s.underway marks hlonger hdirty hstates
        refine ⟨hresult, hjournal, hshown, hsame.trans ⟨fun h => Or.inr fun id hid hnodes => ?_,
          fun h id hid => ⟨fun hmarked => ?_, fun hnodes => ?_⟩⟩⟩
        · exact (hmarks id).mp ((h id hid).mpr ((hredirtied id).mpr hnodes))
        · have hsince := Event.mem_of_mem_changedSince ((hmarks id).mp hmarked)
          exact (hredirtied id).mpr (hsince.resolve_left List.not_mem_nil)
        · have hchanged := h.resolve_left (fun hne => hne rfl)
          exact (hmarks id).mpr (hchanged id hid ((hredirtied id).mp hnodes))
      · rw [endCommit_withMarks_of_failed haccepted]
        exact ⟨rfl, rfl, fun _ => rfl, fun _ => Or.inl haccepted, fun _ => ⟨marks, rfl⟩⟩

/-! A note gets another title while its first one is on its way to the store, and somebody tries to
commit behind or in front of that. -/

open MemoryStore (noteType)

/-- A session with one note, whose title was changed. -/
def retitledNote : Session MemoryStore :=
  (Mutation.set 0 "title" (.datum (.text "b"))).run
    ((ofStore .empty (.ofSequence fun n => toString n) 4).addEntity (.loaded noteType "http://e/n1"
      [("title", .single (some (.literal (.plain "a")))), ("tag", .several [])])).2

/-- The change of another title. -/
def anotherTitle : Action MemoryStore :=
  .mutate (.set 0 "title" (.datum (.text "c")))

theorem commitAmid_eq_retitledNote :
    (∀ id ∈ retitledNote.dirty, id < retitledNote.entities.length) ∧
    ∃ marks, (retitledNote.commitAmid [.attempt send, .act anotherTitle] .accepted).2 =
      (retitledNote.commitDuring [anotherTitle] .accepted).2.withMarks marks :=
  have hknown : ∀ id ∈ retitledNote.dirty, id < retitledNote.entities.length := by decide +kernel
  ⟨hknown, (commitAmid_eq_iff retitledNote hknown [.attempt send, .act anotherTitle]
    .accepted).2.2.2.2.mpr (Or.inr (by decide +kernel))⟩

/-- Behind an attempt that was refused a note counts as clean, though the change of its title still
waits, and a rollback does not bring back the title that was committed. -/
theorem commitAmid_forgets_change :
    let amid := (retitledNote.commitAmid [.act anotherTitle, .attempt send] .accepted).2
    let plain := (retitledNote.commitDuring [anotherTitle] .accepted).2
    let title (s : Session MemoryStore) := (s.state? 0).map fun state => state.terms "title"
    amid.journal = plain.journal ∧ amid.journal.changes.length = 1 ∧
      amid.dirty = [] ∧ plain.dirty = [0] ∧
      amid.cache.pinned = [] ∧ plain.cache.pinned = [("Note", "http://e/n1")] ∧
      title amid.rollback = some [.literal (.plain "c")] ∧
      title plain.rollback = some [.literal (.plain "b")] := by
  decide +kernel

end Session

end EntityMapping
