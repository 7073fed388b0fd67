import EntityMapping.Session.Basic
import EntityMapping.Store

/-!
Commits and rollbacks.

A commit sends everything in the journal as one request.  What was fixed when it began is what
counts as committed afterwards, whatever changed while the request was on its way.  A commit that
fails leaves the journal and the dirty entities alone, so it can be tried again.
-/

namespace EntityMapping

/-- What a commit fixes when it begins: its request, and the states of the dirty entities. -/
structure Commit where
  batch : Batch
  states : List (EntityId × EntityState)

namespace Session

variable {σ : Type}

/-- The states of the dirty entities. -/
def dirtyStates (s : Session σ) : List (EntityId × EntityState) :=
  s.dirty.map fun id => (id, (s.entity? id).elim [] Entity.values)

/-- Begins a commit.  Where nothing waits there is none to begin.  Beginning, even where it is
refused, forgets which entities changed since the last one began. -/
def beginCommit (s : Session σ) : Except CommitError (Option Commit) × Session σ :=
  if s.journal.changes.isEmpty then (.ok none, s)
  else
    let states := s.dirtyStates
    let s := { s with redirtied := [] }
    match s.journal.start with
    | .error e => (.error e, s)
    | .ok none => (.ok none, s)
    | .ok (some (batch, journal)) => (.ok (some ⟨batch, states⟩), { s with journal := journal })

/-- Settles one entity after a commit: its state when the commit began is what the store holds.  It
is clean unless it has changed since. -/
def settle (s : Session σ) (committed : EntityId × EntityState) : Session σ :=
  let (id, state) := committed
  if s.redirtied.contains id then
    match s.entity? id with
    | none => s
    | some e => s.setEntity id (e.markCommitted state)
  else s.markCommitted id

/-- Ends a commit; the number of changes that were committed. -/
def endCommit (s : Session σ) (c : Commit) (outcome : Outcome) :
    Except CommitError Nat × Session σ :=
  match s.journal.finish c.batch outcome with
  | (.error e, journal) => (.error e, { s with journal := journal })
  | (.ok changes, journal) =>
    let s := c.states.foldl settle { s with journal := journal }
    (.ok changes.length, { s with redirtied := [] })

/-- Commits.  What happens while the request is on its way, `trip`, may do anything to the
session. -/
def commitWith (s : Session σ) (trip : String → Session σ → Outcome × Session σ) :
    Except CommitError Nat × Session σ :=
  match s.beginCommit with
  | (.error e, s) => (.error e, s)
  | (.ok none, s) => (.ok 0, s)
  | (.ok (some c), s) =>
    let (outcome, s) := trip c.batch.update s
    s.endCommit c outcome

/-- Sends an update to the store. -/
def send [GraphStore σ] (update : String) (s : Session σ) : Outcome × Session σ :=
  let (result, store) := GraphStore.update update s.store
  (Outcome.ofResult result, { s with store := store })

/-- Commits to the store. -/
def commit [GraphStore σ] (s : Session σ) : Except CommitError Nat × Session σ :=
  s.commitWith send

/-- Takes one dirty entity back to its last committed state. -/
def rollbackEntity (s : Session σ) (id : EntityId) : Session σ :=
  match s.entity? id with
  | none => s
  | some e =>
    ({ s with dirty := s.dirty.filter (· ≠ id) }.setEntity id e.revert).release e.revert

/-- Drops all changes that wait, and takes their entities back. -/
def rollback (s : Session σ) : Session σ :=
  s.dirty.foldl rollbackEntity { s with journal := s.journal.clear }

end Session

end EntityMapping
