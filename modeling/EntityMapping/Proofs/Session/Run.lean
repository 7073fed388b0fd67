import EntityMapping.Proofs.Session.Commit
import EntityMapping.Proofs.Session.Mutation

/-!
Runs of a session.

Entities are loaded and mutated, and the store changes on its own, between commits and also while a
commit is on its way.  A history of a session keeps what nobody but an onlooker knows: who recorded
which of the changes that wait, and which state of each entity was committed last.
-/

namespace EntityMapping

/-- What can happen to a session at any time, also while a commit is on its way. -/
inductive Action (σ : Type) where
  | mutate (m : Mutation)
  /-- Loads what a selection gives. -/
  | select (t : EntityType) (text : String)
  | load (t : EntityType) (uri : String)
  | register (t : EntityType)
  /-- Listeners come and go. -/
  | listen (f : Listeners → Listeners)
  /-- The store changes without the session. -/
  | store (f : σ → σ)

namespace Session

variable {σ : Type}

/-- The state of an entity. -/
def state? (s : Session σ) (id : EntityId) : Option EntityState :=
  (s.entity? id).map Entity.values

end Session

namespace Action

variable {σ : Type} [GraphStore σ]

/-- The session after an action. -/
def run (s : Session σ) : Action σ → Session σ
  | .mutate m => m.run s
  | .select t text => (s.loadText t text).2
  | .load t uri => (s.load t uri).2
  | .register t => s.register t
  | .listen f => { s with listeners := f s.listeners }
  | .store f => { s with store := f s.store }

/-- The session after several actions. -/
def runAll (s : Session σ) (actions : List (Action σ)) : Session σ :=
  actions.foldl run s

/-- The changes that an action puts behind those that wait, with the entity that records them. -/
def recorded (s : Session σ) : Action σ → List (EntityId × Change)
  | .mutate m => (m.recorded s).map fun c => (m.author s, c)
  | _ => []

/-- The changes that several actions record. -/
def recordedAll (s : Session σ) : List (Action σ) → List (EntityId × Change)
  | [] => []
  | a :: rest => a.recorded s ++ recordedAll (a.run s) rest

/-- The entities that an action asks the store about. -/
def loaded (s : Session σ) : Action σ → List EntityId
  | .select t text => (s.loadText t text).1.toOption.getD []
  | .load t uri => s.fetched t uri
  | _ => []

/-- The committed states after an action: of an entity that was loaded, or loaded again, it is what
the store holds.  Entities with changes of their own are not loaded again. -/
def baseline (s : Session σ) (committed : EntityId → Option EntityState) (a : Action σ)
    (id : EntityId) : Option EntityState :=
  if id ∈ a.loaded s ∧ id ∉ s.dirty then (a.run s).state? id else committed id

/-- The committed states after several actions. -/
def baselineAll (s : Session σ) (committed : EntityId → Option EntityState) :
    List (Action σ) → EntityId → Option EntityState
  | [] => committed
  | a :: rest => baselineAll (a.run s) (a.baseline s committed) rest

end Action

namespace Session

variable {σ : Type} [GraphStore σ]

/-- Commits to a store that gives the outcome, while actions are carried out. -/
def commitDuring (s : Session σ) (trip : List (Action σ)) (outcome : Outcome) :
    Except CommitError Nat × Session σ :=
  s.commitWith fun _ s => (outcome, Action.runAll s trip)

/-- The changes that are recorded while a commit is on its way. -/
def recordedDuring (s : Session σ) (trip : List (Action σ)) : List (EntityId × Change) :=
  match s.beginCommit with
  | (.ok (some _), begun) => Action.recordedAll begun trip
  | _ => []

/-- The committed states after a commit that failed. -/
def baselineDuring (s : Session σ) (trip : List (Action σ))
    (committed : EntityId → Option EntityState) : EntityId → Option EntityState :=
  match s.beginCommit with
  | (.ok (some _), begun) => Action.baselineAll begun committed trip
  | _ => committed

end Session

/-- What is done with a session while no request is on its way. -/
inductive Operation (σ : Type) where
  | act (a : Action σ)
  /-- A commit, with what happens meanwhile and what the store makes of the request. -/
  | commit (trip : List (Action σ)) (outcome : Outcome)
  | rollback

/-- A session with what an onlooker knows about it. -/
structure History (σ : Type) where
  session : Session σ
  /-- The changes that wait, with the entities that recorded them. -/
  queue : List (EntityId × Change)
  /-- The state of an entity that was committed last. -/
  committed : EntityId → Option EntityState

namespace History

variable {σ : Type} [GraphStore σ]

/-- The history of a session in which nothing has happened. -/
def start (store : σ) (suffixes : Suffixes) (cacheSize : Nat) : History σ :=
  ⟨.ofStore store suffixes cacheSize, [], fun _ => none⟩

/-- The history after one more operation.  What a successful commit commits are the states of the
dirty entities when it began. -/
def step (h : History σ) : Operation σ → History σ
  | .act a => ⟨a.run h.session, h.queue ++ a.recorded h.session, a.baseline h.session h.committed⟩
  | .commit trip outcome =>
    let during := h.session.recordedDuring trip
    let committed := h.session.baselineDuring trip h.committed
    match h.session.commitDuring trip outcome with
    | (.ok _, after) =>
      ⟨after, during, fun id =>
        if id ∈ h.session.dirty then h.session.state? id else committed id⟩
    | (.error _, after) => ⟨after, h.queue ++ during, committed⟩
  | .rollback => ⟨h.session.rollback, [], h.committed⟩

/-- The history after several operations. -/
def run (h : History σ) (ops : List (Operation σ)) : History σ :=
  ops.foldl step h

end History

namespace Session

variable {σ : Type} [GraphStore σ]

/-- A commit to a store is one in which nothing happens but what the store does. -/
theorem exists_commitDuring_commit (s : Session σ) :
    ∃ store outcome, s.commit = s.commitDuring [.store fun _ => store] outcome := by
  unfold commit commitDuring commitWith
  rcases s.beginCommit with ⟨begin | _ | c, begun⟩
  · exact ⟨s.store, .accepted, rfl⟩
  · exact ⟨s.store, .accepted, rfl⟩
  · rcases hsent : send c.batch.update begun with ⟨outcome, after⟩
    refine ⟨after.store, outcome, ?_⟩
    have hafter : after = { begun with store := after.store } := by
      obtain ⟨-, rfl⟩ := Prod.mk.inj hsent
      rfl
    simp only [hsent]
    rw [hafter]
    rfl

end Session

end EntityMapping
