import EntityMapping.Proofs.Session.Pending

/-!
Runs of a session that is the only writer of its store.

It mutates and commits in any order, and mutators may be called while a commit is on its way.  In
every state between two turns the store, with the changes that wait replayed on it, holds what the
entities have in memory.
-/

namespace EntityMapping

/-- What happens while a commit of the only writer is on its way: the mutators that are called
before the store does anything and after it did, and the error of a store that refuses. -/
structure Trip where
  before : List Mutation
  refusal : Option StoreError
  after : List Mutation

namespace Trip

/-- What the store makes of the request. -/
def answer (trip : Trip) (text : String) (s : Session MemoryStore) :
    Outcome × Session MemoryStore :=
  match trip.refusal with
  | some cause => (.rejected cause, s)
  | none => s.send text

/-- The way of a request to the store and back. -/
def run (trip : Trip) (text : String) (s : Session MemoryStore) : Outcome × Session MemoryStore :=
  let (outcome, s) := trip.answer text (Mutation.runAll s trip.before)
  (outcome, Mutation.runAll s trip.after)

/-- Whether all mutations of a trip are admitted. -/
def Admitted (s : Session MemoryStore) (trip : Trip) : Prop :=
  ∀ c begun, s.beginCommit = (.ok (some c), begun) →
    Mutation.AdmittedAll begun trip.before ∧
      Mutation.AdmittedAll (trip.answer c.batch.update (Mutation.runAll begun trip.before)).2
        trip.after

end Trip

/-- What the only writer of a store does. -/
inductive Turn where
  | mutate (m : Mutation)
  | commit (trip : Trip)

namespace Turn

/-- The session after a turn. -/
def run (s : Session MemoryStore) : Turn → Session MemoryStore
  | .mutate m => m.run s
  | .commit trip => (s.commitWith trip.run).2

/-- The session after several turns. -/
def runAll (s : Session MemoryStore) : List Turn → Session MemoryStore
  | [] => s
  | turn :: rest => runAll (turn.run s) rest

/-- Whether the mutations of a turn are admitted. -/
def Admitted (s : Session MemoryStore) : Turn → Prop
  | .mutate m => m.Admitted s
  | .commit trip => trip.Admitted s

/-- Whether the mutations of several turns are admitted when their turns come. -/
def AdmittedAll (s : Session MemoryStore) : List Turn → Prop
  | [] => True
  | turn :: rest => turn.Admitted s ∧ AdmittedAll (turn.run s) rest

end Turn

namespace Session

variable {s : Session MemoryStore} {edits : List Edit}

theorem grows_answer (trip : Trip) (text : String) (s : Session MemoryStore) :
    s.Grows (trip.answer text s).2 := by
  intro id e p predicate howns
  unfold Trip.answer
  cases trip.refusal with
  | some cause => exact ⟨e, howns, rfl⟩
  | none => exact ⟨e, owns_withStore.mpr howns, rfl⟩

theorem WellFormed.answer (h : s.WellFormed) (trip : Trip) (text : String) :
    (trip.answer text s).2.WellFormed := by
  unfold Trip.answer
  cases trip.refusal with
  | some cause => exact h
  | none => exact h

/-- A commit takes nothing from an entity, and lets all entities be sound. -/
theorem WellFormed.commitWith (h : s.WellFormed) {trip : Trip} (htrip : trip.Admitted s) :
    s.Grows (s.commitWith trip.run).2 ∧ (s.commitWith trip.run).2.WellFormed := by
  have hbegins := s.beginCommit_begins
  unfold Session.commitWith
  generalize hbegan : s.beginCommit = began at hbegins ⊢
  cases hbegins with
  | idle hempty => exact ⟨(Alike.refl s).grows, h⟩
  | refused e =>
      have hforgot : s.Alike { s with redirtied := [] } := ⟨fun _ => rfl, rfl⟩
      exact ⟨hforgot.grows, hforgot.wellFormed h⟩
  | begun c hsome hchanges hupdate hstates =>
      have hunderway : s.Alike s.underway := ⟨fun _ => rfl, rfl⟩
      obtain ⟨hbefore, hafter⟩ := htrip c _ hbegan
      obtain ⟨first, hfirst⟩ := exists_extends_runAll (hunderway.wellFormed h) hbefore
      obtain ⟨later, hlater⟩ :=
        exists_extends_runAll (hfirst.wellFormed.answer trip c.batch.update) hafter
      have hended := alike_endCommit (trip.run c.batch.update s.underway).2 c
        (trip.run c.batch.update s.underway).1
      have hanswer := grows_answer trip c.batch.update (Mutation.runAll s.underway trip.before)
      have hback := hfirst.grows.trans (hanswer.trans hlater.grows)
      exact ⟨hunderway.grows.trans (hback.trans hended.grows), hended.wellFormed hlater.wellFormed⟩

/-- A trip from which the store's refusal comes back leaves everything to wait, and one on which the
store took the changes leaves what was put behind them. -/
theorem Pending.trip (h : s.Pending [] edits) (hsome : s.journal.changes ≠ []) {text : String}
    (htext : s.journal.update = .ok text) {trip : Trip}
    (hbefore : Mutation.AdmittedAll s trip.before)
    (hafter : Mutation.AdmittedAll (trip.answer text (Mutation.runAll s trip.before)).2 trip.after)
    (hseparate : (trip.run text s).2.Separate) :
    ((trip.run text s).1 ≠ .accepted ∧ ∃ left, (trip.run text s).2.Pending [] left) ∨
      ((trip.run text s).1 = .accepted ∧
        ∃ left, (trip.run text s).2.Pending s.journal.changes left) := by
  obtain ⟨first, hfirst⟩ := exists_extends_runAll h.wellFormed hbefore
  obtain ⟨later, hlater⟩ :=
    exists_extends_runAll (hfirst.wellFormed.answer trip text) hafter
  have harrived := hseparate.of_grows ((grows_answer trip text _).trans hlater.grows)
  unfold Trip.run at hseparate ⊢
  unfold Trip.answer at hlater hseparate ⊢
  cases hrefusal : trip.refusal with
  | some cause =>
      rw [hrefusal] at hlater hseparate
      exact Or.inl ⟨by simp, _, h.append (hfirst.append hlater) hseparate⟩
  | none =>
      obtain ⟨store, hsend, hpending⟩ := h.exists_send hsome htext hfirst harrived
      rw [hrefusal] at hlater hseparate
      simp only [hsend] at hlater hseparate ⊢
      exact Or.inr ⟨trivial, _, hpending.append hlater hseparate⟩

theorem Pending.commitWith (h : s.Pending [] edits) {trip : Trip} (htrip : trip.Admitted s)
    (hseparate : (s.commitWith trip.run).2.Separate) :
    ∃ left, (s.commitWith trip.run).2.Pending [] left := by
  have hbegins := s.beginCommit_begins
  unfold Session.commitWith at hseparate ⊢
  generalize hbegan : s.beginCommit = began at hbegins hseparate ⊢
  cases hbegins with
  | idle hempty => exact ⟨edits, h⟩
  | refused e => exact ⟨edits, h.congr ⟨fun _ => rfl, rfl⟩ rfl⟩
  | begun c hsome hchanges hupdate hstates =>
      obtain ⟨hbefore, hafter⟩ := htrip c _ hbegan
      have hunderway : s.underway.Pending [] edits := h.congr ⟨fun _ => rfl, rfl⟩ rfl
      have hback := hseparate.of_grows (alike_endCommit _ c _).grows
      dsimp only
      rcases hunderway.trip hsome hupdate hbefore hafter hback with
        ⟨hfailed, left, hleft⟩ | ⟨haccepted, left, hleft⟩
      · exact ⟨left, hleft.endCommit_failed c hfailed⟩
      · rw [haccepted]
        exact ⟨left, Pending.endCommit_accepted (hchanges ▸ hleft)⟩

/-- The objects of a graph are what the entities have in memory. -/
def Agrees (s : Session MemoryStore) (g : Graph) : Prop :=
  ∀ id e p predicate, s.Owns id e p predicate → ∀ o : Term,
    o.memberOf (g.objects (.iri e.uri) (.iri predicate)) = o.memberOf (e.values.terms p.name)

/-- A session for which nothing waits, and whose store holds what the entities have in memory. -/
structure InStep (s : Session MemoryStore) : Prop where
  idle : s.journal.changes = []
  wellFormed : s.WellFormed
  agrees : s.Agrees s.store.graph

theorem InStep.pending (h : s.InStep) : s.Pending [] [] where
  changes := h.idle
  readable e he := absurd he List.not_mem_nil
  wellFormed := h.wellFormed
  shown := by
    refine ⟨fun {id e p predicate} howns o => ?_, fun _ _ => rfl⟩
    rw [← Graph.memberOf_objects]
    exact h.agrees id e p predicate howns o

theorem Pending.exists_replay (h : s.Pending [] edits) :
    ∃ after, s.store.replay s.journal.changes = some after ∧ s.Agrees after.graph := by
  obtain ⟨after, hafter, hsame⟩ := s.store.replay_edits h.readable
  refine ⟨after, h.changes.symm ▸ hafter, fun id e p predicate howns o => ?_⟩
  rw [Graph.memberOf_objects, hsame]
  exact h.shown.owned howns o

end Session

namespace Turn

variable {s : Session MemoryStore}

theorem grows_run (hwell : s.WellFormed) {turn : Turn} (hturn : turn.Admitted s) :
    s.Grows (turn.run s) ∧ (turn.run s).WellFormed := by
  cases turn with
  | mutate m =>
      obtain ⟨edits, hedits⟩ := Session.exists_extends_run hwell hturn
      exact ⟨hedits.grows, hedits.wellFormed⟩
  | commit trip => exact hwell.commitWith hturn

theorem grows_runAll (hwell : s.WellFormed) {turns : List Turn} (hturns : AdmittedAll s turns) :
    s.Grows (runAll s turns) := by
  induction turns generalizing s with
  | nil => exact (Session.Alike.refl s).grows
  | cons turn turns ih =>
      obtain ⟨hgrows, hafter⟩ := grows_run hwell hturns.1
      exact hgrows.trans (ih hafter hturns.2)

theorem pending_run {edits : List Edit} (h : s.Pending [] edits) {turn : Turn}
    (hturn : turn.Admitted s) (hseparate : (turn.run s).Separate) :
    ∃ left, (turn.run s).Pending [] left := by
  cases turn with
  | mutate m =>
      obtain ⟨more, hmore⟩ := Session.exists_extends_run h.wellFormed hturn
      exact ⟨edits ++ more, h.append hmore hseparate⟩
  | commit trip => exact h.commitWith hturn hseparate

theorem pending_runAll {edits : List Edit} (h : s.Pending [] edits) {turns : List Turn}
    (hturns : AdmittedAll s turns) (hseparate : (runAll s turns).Separate) :
    ∃ left, (runAll s turns).Pending [] left := by
  induction turns generalizing s edits with
  | nil => exact ⟨edits, h⟩
  | cons turn turns ih =>
      have hafter := (grows_run h.wellFormed hturns.1).2
      have hbetween := hseparate.of_grows (grows_runAll hafter hturns.2)
      obtain ⟨left, hleft⟩ := pending_run h hturns.1 hbetween
      exact ih hleft hturns.2 hseparate

/-- However its only writer mutates and commits, the store with what waits, replayed on it, holds
what the entities have in memory. -/
theorem replay_agrees {turns : List Turn} (hstart : s.InStep) (hturns : AdmittedAll s turns)
    (hseparate : (runAll s turns).Separate) :
    ∃ after, (runAll s turns).store.replay (runAll s turns).journal.changes = some after ∧
      (runAll s turns).Agrees after.graph := by
  obtain ⟨left, hleft⟩ := pending_runAll hstart.pending hturns hseparate
  exact hleft.exists_replay

/-! A run in which a note is created and committed, with mutators on the way, and in which a second
commit is refused. -/

open MemoryStore (noteType noteValues noteStore trickyText)

def noteSession : Session MemoryStore :=
  .ofStore noteStore (.ofSequence fun n => toString n) 4

def noteTrip : Trip where
  before := [.set 0 "title" (.term (.literal trickyText))]
  refusal := none
  after := [.add 0 "tag" (.term (.literal (.plain "a")))]

def refusedTrip : Trip where
  before := [.remove 0 "tag" (.term (.literal trickyText))]
  refusal := some .updateFailed
  after := []

def noteTurns : List Turn :=
  [.mutate (.create noteType noteValues), .commit noteTrip, .commit refusedTrip]

/-- A session with one entity, which is a note. -/
def HasNote (s : Session MemoryStore) : Prop :=
  s.entities.map (·.type.properties) = [noteType.properties]

theorem HasNote.properties (h : HasNote s) {id : EntityId} {e : Entity}
    (he : s.entity? id = some e) : id = 0 ∧ e.type.properties = noteType.properties := by
  have hmapped := congrArg (fun properties => properties[id]?) h
  rw [List.getElem?_map, ← Session.entity?, he, Option.map_some] at hmapped
  cases id with
  | zero => exact ⟨rfl, Option.some.inj hmapped⟩
  | succ n => exact absurd hmapped (Option.some_ne_none _)

theorem HasNote.separate (h : HasNote s) : s.Separate := by
  have hdistinct : ∀ p ∈ noteType.properties, ∀ q ∈ noteType.properties,
      p.predicate = q.predicate → p = q := by decide
  intro id other e e' p q predicate howns hother huri
  obtain ⟨rfl, htype⟩ := h.properties howns.entity
  obtain ⟨rfl, htype'⟩ := h.properties hother.entity
  refine ⟨rfl, hdistinct p ?_ q ?_ (howns.predicate.trans hother.predicate.symm)⟩
  · exact htype ▸ howns.property
  · exact htype' ▸ hother.property

theorem HasNote.admits (h : HasNote s) {m : Mutation} (hvalue : m.writesValue = true)
    {l : Literal} (hl : l.ReadsBack)
    (hbinds : ∀ e t, m.Binds e t → ∃ name, e.Binds name (.term (.literal l)) t) :
    m.Admitted s := by
  have hliteral : ∀ p ∈ noteType.properties, p.kind = .literal := by decide
  refine .write hvalue fun e he t ht => ?_
  obtain ⟨name, p, stored, hp, -, hterm⟩ := hbinds e t ht
  have hproperty := (EntityType.property_ok hp).1
  rw [(h.properties he).2] at hproperty
  unfold Property.termFor at hterm
  rw [hliteral p hproperty] at hterm
  obtain rfl := Except.ok.inj hterm
  exact hl

theorem HasNote.answer (h : HasNote s) (trip : Trip) (text : String) :
    HasNote (trip.answer text s).2 := by
  unfold Trip.answer
  cases trip.refusal with
  | some cause => exact h
  | none => exact h

theorem hasNote_noteTurns :
    let created := run noteSession (.mutate (.create noteType noteValues))
    let committed := run created (.commit noteTrip)
    HasNote created.underway ∧ HasNote (Mutation.runAll created.underway noteTrip.before) ∧
      HasNote committed.underway ∧ HasNote (runAll noteSession noteTurns) := by
  unfold HasNote
  decide +kernel

theorem inStep_noteSession : noteSession.InStep where
  idle := rfl
  wellFormed id e he := absurd he (by simp [noteSession, Session.ofStore, Session.entity?])
  agrees id e p predicate howns :=
    absurd howns.entity (by simp [noteSession, Session.ofStore, Session.entity?])

theorem admitted_createNote : Mutation.Admitted noteSession (.create noteType noteValues) := by
  have huri : ValidIri "http://e/note0" := validIri_of_all rfl rfl
  have hfresh : ∀ u ∈ noteSession.store.graph,
      u.subject ≠ .iri (noteSession.freshIri noteType) := by decide +kernel
  have hnote := MemoryStore.readable_noteCreation
  refine .create MemoryStore.mapped_noteType (fun d hdraft => ?_) hfresh
  exact ⟨hnote.anchor, hnote.names, huri, hnote.predicates, hnote.terms⟩

theorem admitted_noteTurns : AdmittedAll noteSession noteTurns := by
  obtain ⟨hcreated, hset, hcommitted, -⟩ := hasNote_noteTurns
  refine ⟨admitted_createNote, ?_, ?_, trivial⟩
  · intro c begun hbegan
    obtain rfl := Session.underway_of_begun hbegan
    refine ⟨⟨?_, trivial⟩, ?_, trivial⟩
    · exact hcreated.admits rfl MemoryStore.readsBack_trickyText fun e t ht => ⟨_, ht.2⟩
    · have hanswered := hset.answer noteTrip c.batch.update
      exact hanswered.admits rfl MemoryStore.readsBack_plain_a fun e t ht => ⟨_, ht⟩
  · intro c begun hbegan
    obtain rfl := Session.underway_of_begun hbegan
    refine ⟨⟨?_, trivial⟩, trivial⟩
    exact hcommitted.admits rfl MemoryStore.readsBack_trickyText fun e t ht => ⟨_, ht⟩

theorem replay_agrees_notes : noteSession.InStep ∧ AdmittedAll noteSession noteTurns ∧
    (runAll noteSession noteTurns).Separate ∧
    ∃ after, (runAll noteSession noteTurns).store.replay
        (runAll noteSession noteTurns).journal.changes = some after ∧
      (runAll noteSession noteTurns).Agrees after.graph :=
  ⟨inStep_noteSession, admitted_noteTurns, hasNote_noteTurns.2.2.2.separate,
    replay_agrees inStep_noteSession admitted_noteTurns hasNote_noteTurns.2.2.2.separate⟩

end Turn

end EntityMapping
