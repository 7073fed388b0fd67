import EntityMapping.Proofs.Change.Edit
import EntityMapping.Proofs.Session.Rendering
import EntityMapping.Store.Replay

/-!
Runs in which commits and rollbacks may happen while a commit is on its way.

A commit inside another one is refused, so only one request is ever on its way, and at the end of
every run none is.  What fails to be sent then is a change that has no update.
-/

namespace EntityMapping

/-! ### Rollbacks and commits -/

/-- Behind every flush the journal is open again. -/
theorem Journal.finish_committing (j : Journal) (b : Batch) (outcome : Outcome) :
    (j.finish b outcome).2.committing = false := by
  cases outcome <;> rfl

namespace Session

variable {σ : Type} {s : Session σ} {clean : Prop}

theorem founded_rollbackEntity (hall : ∀ e ∈ s.entities, e.Founded) (id : EntityId) :
    ∀ e ∈ (s.rollbackEntity id).entities, e.Founded := by
  cases he : s.entity? id with
  | none =>
      simp only [rollbackEntity, he]
      exact hall
  | some e =>
      rw [rollbackEntity_eq he]
      intro other hother
      rcases mem_setEntity hother with hother | rfl
      · exact hall other hother
      · exact (hall e (mem_of_entity? he)).revert

theorem rollbackEntity_journal (s : Session σ) (id : EntityId) :
    (s.rollbackEntity id).journal = s.journal := by
  unfold rollbackEntity
  split <;> rfl

/-- Rolling entities back leaves the journal alone, and keeps them as good as they were. -/
theorem foldl_rollbackEntity (s : Session σ) (ids : List EntityId) :
    (ids.foldl rollbackEntity s).journal = s.journal ∧
      ((∀ e ∈ s.entities, e.Founded) → ∀ e ∈ (ids.foldl rollbackEntity s).entities, e.Founded) := by
  induction ids generalizing s with
  | nil => exact ⟨rfl, id⟩
  | cons first ids ih =>
      obtain ⟨hjournal, hfounded⟩ := ih (s.rollbackEntity first)
      exact ⟨hjournal.trans (s.rollbackEntity_journal first),
        fun hall => hfounded (founded_rollbackEntity hall first)⟩

theorem renders_rollback (h : s.Renders clean) : s.rollback.Renders clean := by
  obtain ⟨hjournal, hfounded⟩ := foldl_rollbackEntity { s with journal := s.journal.clear } s.dirty
  refine h.congr (fun _ hall => hfounded hall) ?_
  rw [rollback, hjournal]
  exact List.nil_subset _

theorem rollback_committing (s : Session σ) :
    s.rollback.journal.committing = s.journal.committing := by
  rw [rollback, (foldl_rollbackEntity _ _).1]
  rfl

theorem settle_journal (s : Session σ) (committed : EntityId × EntityState) :
    (s.settle committed).journal = s.journal := by
  unfold settle
  dsimp only
  split
  · split <;> rfl
  · unfold markCommitted
    split <;> rfl

theorem founded_settle (hall : ∀ e ∈ s.entities, e.Founded) {committed : EntityId × EntityState}
    (hstate : committed.2.Bindable) : ∀ e ∈ (s.settle committed).entities, e.Founded := by
  obtain ⟨id, state⟩ := committed
  cases he : s.entity? id with
  | none =>
      simp only [settle, markCommitted, he]
      split <;> exact hall
  | some e =>
      have hold := hall e (mem_of_entity? he)
      intro other hother
      by_cases hid : id ∈ s.redirtied
      · rw [settle_of_redirtied hid he] at hother
        rcases mem_setEntity hother with hother | rfl
        · exact hall other hother
        · exact hold.markCommitted hstate
      · rw [settle_of_clean hid he] at hother
        rcases mem_setEntity hother with hother | rfl
        · exact hall other hother
        · exact hold.markCommitted hold.values

theorem foldl_settle (s : Session σ) (states : List (EntityId × EntityState)) :
    (states.foldl settle s).journal = s.journal ∧
      ((∀ entry ∈ states, entry.2.Bindable) → (∀ e ∈ s.entities, e.Founded) →
        ∀ e ∈ (states.foldl settle s).entities, e.Founded) := by
  induction states generalizing s with
  | nil => exact ⟨rfl, fun _ hall => hall⟩
  | cons first states ih =>
      obtain ⟨hjournal, hfounded⟩ := ih (s.settle first)
      refine ⟨hjournal.trans (s.settle_journal first), fun hstates hall => ?_⟩
      obtain ⟨hfirst, hrest⟩ := List.forall_mem_cons.mp hstates
      exact hfounded hrest (founded_settle hall hfirst)

theorem endCommit_journal (s : Session σ) (c : Commit) (outcome : Outcome) :
    (s.endCommit c outcome).2.journal = (s.journal.finish c.batch outcome).2 := by
  cases outcome with
  | accepted => exact (foldl_settle _ _).1
  | rejected cause => rfl
  | interrupted => rfl

/-- The end of a commit takes the states for committed that it fixed when it began. -/
theorem renders_endCommit (h : s.Renders clean) (c : Commit) (outcome : Outcome)
    (hstates : clean → ∀ entry ∈ c.states, entry.2.Bindable) :
    (s.endCommit c outcome).2.Renders clean := by
  refine h.congr (fun hc hall => ?_) ?_
  · cases outcome with
    | accepted => exact (foldl_settle _ c.states).2 (hstates hc) hall
    | rejected cause => exact hall
    | interrupted => exact hall
  · rw [endCommit_journal]
    cases outcome with
    | accepted => exact List.drop_subset _ _
    | rejected cause => exact List.Subset.refl _
    | interrupted => exact List.Subset.refl _

theorem bindable_dirtyStates (hall : ∀ e ∈ s.entities, e.Founded) :
    ∀ entry ∈ s.dirtyStates, entry.2.Bindable := by
  intro entry hentry
  obtain ⟨id, -, rfl⟩ := List.mem_map.mp hentry
  cases he : s.entity? id with
  | none => exact fun entry hentry => absurd hentry List.not_mem_nil
  | some e => exact (hall e (mem_of_entity? he)).values

end Session

/-- What happens to a session: an action, a rollback, or a commit with all that happens while its
request is on its way, further commits and rollbacks among it. -/
inductive Episode (σ : Type) where
  | act (a : Action σ)
  | rollback
  | commit (trip : List (Episode σ)) (outcome : Outcome)

namespace Episode

variable {σ : Type} [GraphStore σ]

mutual

/-- The session after an episode. -/
def run : Episode σ → Session σ → Session σ
  | .act a, s => a.run s
  | .rollback, s => s.rollback
  | .commit trip outcome, s => (s.commitWith fun _ s => (outcome, runAll trip s)).2

/-- The session after several episodes. -/
def runAll : List (Episode σ) → Session σ → Session σ
  | [], s => s
  | e :: rest, s => runAll rest (e.run s)

end

mutual

/-- An episode that brings nothing in that cannot be bound. -/
def Clean : Episode σ → Session σ → Prop
  | .act a, s => a.Clean s
  | .rollback, _ => True
  | .commit trip _, s => ∀ c begun, s.beginCommit = (.ok (some c), begun) → CleanAll trip begun

/-- Several episodes that bring nothing in that cannot be bound. -/
def CleanAll : List (Episode σ) → Session σ → Prop
  | [], _ => True
  | e :: rest, s => e.Clean s ∧ CleanAll rest (e.run s)

end

end Episode

namespace Session

variable {σ : Type} [GraphStore σ]

/-- Commits to a store that gives the outcome, while episodes happen. -/
def commitAmong (s : Session σ) (trip : List (Episode σ)) (outcome : Outcome) :
    Except CommitError Nat × Session σ :=
  s.commitWith fun _ s => (outcome, Episode.runAll trip s)

omit [GraphStore σ] in
/-- A commit begins only where none is on its way. -/
theorem idle_of_begun {s s' : Session σ} {c : Commit} (h : s.beginCommit = (.ok (some c), s')) :
    s.journal.committing = false := by
  rw [Bool.eq_false_iff]
  intro hcommitting
  unfold beginCommit Journal.start at h
  split at h
  · cases h
  · simp only [hcommitting, if_true] at h
    cases h

/-- All that a commit can come to. -/
theorem commitAmong_cases (s : Session σ) (trip : List (Episode σ)) (outcome : Outcome) :
    (s.commitAmong trip outcome = (.ok 0, s) ∧ s.journal.changes = []) ∨
    (∃ e, s.commitAmong trip outcome = (.error e, { s with redirtied := [] })) ∨
    ∃ c, s.beginCommit = (.ok (some c), s.underway) ∧ c.states = s.dirtyStates ∧
      s.commitAmong trip outcome = (Episode.runAll trip s.underway).endCommit c outcome := by
  unfold commitAmong commitWith
  have hbegins := s.beginCommit_begins
  generalize s.beginCommit = begun at hbegins
  cases hbegins with
  | idle hempty => exact Or.inl ⟨rfl, hempty⟩
  | refused e => exact Or.inr (Or.inl ⟨e, rfl⟩)
  | begun c hsome hchanges hupdate hstates => exact Or.inr (Or.inr ⟨c, rfl, hstates, rfl⟩)

end Session

namespace Episode

variable {σ : Type} [GraphStore σ] {clean : Prop}

mutual

theorem renders_run (e : Episode σ) {s : Session σ} (h : s.Renders clean)
    (hclean : clean → e.Clean s) : (e.run s).Renders clean := by
  match e with
  | .act a => exact Action.renders_run h a hclean
  | .rollback => exact Session.renders_rollback h
  | .commit trip outcome =>
      change (s.commitAmong trip outcome).2.Renders clean
      rcases s.commitAmong_cases trip outcome with
        ⟨hnothing, -⟩ | ⟨e, hrefused⟩ | ⟨c, hbegun, hstates, hended⟩
      · rw [hnothing]
        exact h
      · rw [hrefused]
        exact h.congr (fun _ hall => hall) (List.Subset.refl _)
      · rw [hended]
        have hunderway : s.underway.Renders clean :=
          h.congr (fun _ hall => hall) (List.Subset.refl _)
        have htrip := renders_runAll trip hunderway fun hc => hclean hc c s.underway hbegun
        refine Session.renders_endCommit htrip c outcome fun hc => ?_
        exact hstates ▸ Session.bindable_dirtyStates (h.entities hc)

theorem renders_runAll (episodes : List (Episode σ)) {s : Session σ} (h : s.Renders clean)
    (hclean : clean → CleanAll episodes s) : (runAll episodes s).Renders clean := by
  match episodes with
  | [] => exact h
  | e :: rest =>
      have hfirst := renders_run e h fun hc => (hclean hc).1
      exact renders_runAll rest hfirst fun hc => (hclean hc).2

end

mutual

/-- An episode ends every commit that it begins, and no other. -/
theorem run_committing (e : Episode σ) (s : Session σ) :
    (e.run s).journal.committing = s.journal.committing := by
  match e with
  | .act a => exact a.run_committing s
  | .rollback => exact s.rollback_committing
  | .commit trip outcome =>
      change (s.commitAmong trip outcome).2.journal.committing = _
      rcases s.commitAmong_cases trip outcome with
        ⟨hnothing, -⟩ | ⟨e, hrefused⟩ | ⟨c, hbegun, -, hended⟩
      · rw [hnothing]
      · rw [hrefused]
      · rw [hended, Session.endCommit_journal, Session.idle_of_begun hbegun]
        exact Journal.finish_committing _ c.batch outcome

theorem runAll_committing (episodes : List (Episode σ)) (s : Session σ) :
    (runAll episodes s).journal.committing = s.journal.committing := by
  match episodes with
  | [] => rfl
  | e :: rest => exact (runAll_committing rest (e.run s)).trans (run_committing e s)

end

end Episode

namespace Session

variable {σ : Type} [GraphStore σ] {s : Session σ}

/-- Where no commit is on its way, a commit is refused if the changes that wait have no update. -/
theorem commitAmong_of_error (hidle : s.journal.committing = false) {cause : MappingError}
    (hupdate : s.journal.update = .error cause) (trip : List (Episode σ)) (outcome : Outcome) :
    (s.commitAmong trip outcome).1 = .error (.unrenderable cause) := by
  have hsome : s.journal.changes.isEmpty = false := by
    rw [Bool.eq_false_iff]
    intro hempty
    rw [Journal.update, List.isEmpty_iff.mp hempty] at hupdate
    cases hupdate
  have hstart : s.journal.start = .error (.unrenderable cause) := by
    simp only [Journal.start, hidle, hsome, hupdate, Bool.false_eq_true, if_false]
  simp only [commitAmong, commitWith, beginCommit, hsome, hstart, Bool.false_eq_true, if_false]

/-- Where no commit is on its way and the changes that wait have an update, all that can go wrong
with a commit is what the store makes of it. -/
theorem commitAmong_of_ok (hidle : s.journal.committing = false) {text : String}
    (hupdate : s.journal.update = .ok text) (trip : List (Episode σ)) (outcome : Outcome) :
    (∃ n, (s.commitAmong trip outcome).1 = .ok n) ∨
    (∃ n cause, (s.commitAmong trip outcome).1 = .error (.rejected n cause text)) ∨
    (outcome = .interrupted ∧ (s.commitAmong trip outcome).1 = .error .interrupted) := by
  cases hsome : s.journal.changes.isEmpty with
  | true =>
      simp only [commitAmong, commitWith, beginCommit, hsome, if_true]
      exact Or.inl ⟨0, rfl⟩
  | false =>
      have hstart : s.journal.start =
          .ok (some (⟨s.journal.changes, text⟩, { s.journal with committing := true })) := by
        simp only [Journal.start, hidle, hsome, hupdate, Bool.false_eq_true, if_false]
      simp only [commitAmong, commitWith, beginCommit, hsome, hstart, Bool.false_eq_true, if_false]
      cases outcome with
      | accepted => exact Or.inl ⟨_, rfl⟩
      | rejected cause => exact Or.inr (Or.inl ⟨_, cause, rfl⟩)
      | interrupted => exact Or.inr (Or.inr ⟨rfl, rfl⟩)

omit [GraphStore σ] in
theorem renders_ofStore (store : σ) (suffixes : Suffixes) (cacheSize : Nat) (clean : Prop) :
    (ofStore store suffixes cacheSize).Renders clean where
  writes _ hc := absurd hc List.not_mem_nil
  entities _ _ he := absurd he List.not_mem_nil
  founded _ _ hc := absurd hc List.not_mem_nil

/-- After any run from a session in which nothing has happened, what waits has an update exactly if
whatever its changes mention beside the values that they write can be bound, so a value that a
mutation has taken never stands in the way.  A commit that begins then is refused for a change
without an update, or it is accepted or rejected by the store.  There is no change without an update
if nothing was loaded that cannot be bound. -/
theorem commitAmong_renders (store : σ) (suffixes : Suffixes) (cacheSize : Nat)
    (episodes trip : List (Episode σ)) (outcome : Outcome) :
    let start := ofStore store suffixes cacheSize
    let s := Episode.runAll episodes start
    let result := (s.commitAmong trip outcome).1
    ((∃ text, s.journal.update = .ok text) ↔ ∀ c ∈ s.journal.changes, c.Founded) ∧
    ((∃ cause, result = .error (.unrenderable cause)) ↔
      ∃ c ∈ s.journal.changes, ¬ c.Founded) ∧
    (outcome ≠ .interrupted → (∀ c ∈ s.journal.changes, c.Founded) →
      (∃ n, result = .ok n) ∨ ∃ n cause text, result = .error (.rejected n cause text)) ∧
    (Episode.CleanAll episodes start → ∀ c ∈ s.journal.changes, c.Founded) := by
  intro start s result
  have hrenders : s.Renders (Episode.CleanAll episodes start) :=
    Episode.renders_runAll episodes (renders_ofStore store suffixes cacheSize _) id
  have hidle : s.journal.committing = false := Episode.runAll_committing episodes start
  have hupdate : (∃ text, s.journal.update = .ok text) ↔ ∀ c ∈ s.journal.changes, c.Founded :=
    Change.exists_combine_iff.trans (forall₂_congr fun c hc => and_iff_left (hrenders.writes c hc))
  refine ⟨hupdate, ?_, ?_, hrenders.founded⟩
  · have hunfounded : (∃ c ∈ s.journal.changes, ¬ c.Founded) ↔
        ¬ ∃ text, s.journal.update = .ok text := by
      rw [hupdate]
      simp only [Classical.not_forall, exists_prop]
    rw [hunfounded]
    constructor
    · rintro ⟨cause, hresult⟩ ⟨text, htext⟩
      rcases commitAmong_of_ok hidle htext trip outcome with
        ⟨n, hok⟩ | ⟨n, other, hrejected⟩ | ⟨-, hinterrupted⟩
      · cases hok.symm.trans hresult
      · cases hrejected.symm.trans hresult
      · cases hinterrupted.symm.trans hresult
    · intro hnone
      cases htext : s.journal.update with
      | ok text => exact absurd ⟨text, htext⟩ hnone
      | error cause => exact ⟨cause, commitAmong_of_error hidle htext trip outcome⟩
  · intro houtcome hfounded
    obtain ⟨text, htext⟩ := hupdate.mpr hfounded
    rcases commitAmong_of_ok hidle htext trip outcome with
      hok | ⟨n, cause, hrejected⟩ | ⟨hinterrupted, -⟩
    · exact Or.inl hok
    · exact Or.inr ⟨n, cause, text, hrejected⟩
    · exact absurd hinterrupted houtcome

/-! A note is loaded, gets another title, and is committed; while that is on its way its title
changes again, and somebody tries to commit. -/

open MemoryStore (noteType)

/-- What a store says about a note. -/
def noteRow (uri : String) (title : Term) : Row :=
  [("note", some (.iri uri)), ("title", some title)]

/-- A session over a store that has one answer. -/
def sessionOver (rows : List Row) : Session PreparedStore :=
  .ofStore ⟨[.ok rows]⟩ (.ofSequence fun n => toString n) 4

/-- The note is loaded and gets a title. -/
def loadAndRetitle : List (Episode PreparedStore) :=
  [.act (.load noteType "http://e/n1"), .act (.mutate (.set 0 "title" (.datum (.text "b"))))]

/-- Another title, and an attempt to commit it. -/
def retitleAndCommit : List (Episode PreparedStore) :=
  [.act (.mutate (.set 0 "title" (.datum (.text "c")))), .commit [] .accepted]

theorem commitAmong_renders_note :
    let start := sessionOver [noteRow "http://e/n1" (.literal (.plain "a"))]
    let s := Episode.runAll loadAndRetitle start
    Episode.CleanAll loadAndRetitle start ∧ s.journal.changes ≠ [] ∧
      ((∃ n, (s.commitAmong retitleAndCommit .accepted).1 = .ok n) ∨
        ∃ n cause text, (s.commitAmong retitleAndCommit .accepted).1 =
          .error (.rejected n cause text)) := by
  intro start s
  have hclean : Episode.CleanAll loadAndRetitle start := by
    refine ⟨fun _ _ rows hrows => ?_, trivial, trivial⟩
    obtain rfl := Except.ok.inj hrows
    exact ⟨by decide, by decide, by decide⟩
  obtain ⟨-, -, hresult, hfounded⟩ := commitAmong_renders start.store start.suffixes 4
    loadAndRetitle retitleAndCommit .accepted
  exact ⟨hclean, by decide +kernel, hresult (by decide) (hfounded hclean)⟩

/-- All notes are loaded, and one is redirected to another whose IRI has a space without a break. -/
def loadAndRedirect : List (Episode PreparedStore) :=
  [.act (.select noteType noteType.allText),
    .act (.mutate (.redirect 0 (.entity 1 "http://e/n\u00a02")))]

/-- A title that is a blank node is exchanged for another, and an entity is redirected to one with an
IRI that is not accepted.  Nothing is refused, and then no commit begins. -/
theorem commitAmong_refuses_loaded :
    let retitled := Episode.runAll loadAndRetitle
      (sessionOver [noteRow "http://e/n1" (.blank "x")])
    let redirected := Episode.runAll loadAndRedirect
      (sessionOver [noteRow "http://e/n1" (.literal (.plain "a")),
        noteRow "http://e/n\u00a02" (.literal (.plain "b"))])
    retitled.journal.changes =
        [.replace "http://e/n1" "http://e/title" (.blank "x") (.literal (.plain "b"))] ∧
      (∃ cause, (retitled.commitAmong [] .accepted).1 = .error (.unrenderable cause)) ∧
      redirected.journal.changes = [.redirect "http://e/n1" "http://e/n\u00a02"] ∧
      ∃ cause, (redirected.commitAmong [] .accepted).1 = .error (.unrenderable cause) := by
  intro retitled redirected
  exact ⟨by decide +kernel, ⟨.unbindableTerm "BNode" "x" "o", rfl⟩, by decide +kernel,
    .invalidIri "http://e/n\u00a02", rfl⟩

end Session

end EntityMapping
