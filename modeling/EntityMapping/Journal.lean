import EntityMapping.Change

/-!
The journal: changes that wait for their commit, in the order in which they were made.

Order matters, since a later change may rely on an earlier one; so changes are never moved or
merged.  While a request is on its way the journal is committing: changes that are added then
belong to the next commit.  If the request succeeds the changes it carried are dropped, and if it
fails the journal is what it was.
-/

namespace EntityMapping

/-- Pending changes, and whether a request is on its way. -/
structure Journal where
  changes : List Change
  committing : Bool
  deriving DecidableEq, Repr

/-- What becomes of a request. -/
inductive Outcome where
  | accepted
  | rejected (cause : StoreError)
  /-- The store broke down for a reason of its own. -/
  | interrupted
  deriving DecidableEq, Repr

namespace Outcome

/-- The outcome of an update. -/
def ofResult : Except StoreError Unit → Outcome
  | .ok _ => .accepted
  | .error cause => .rejected cause

end Outcome

/-- Why a commit did not happen. -/
inductive CommitError where
  | inProgress
  /-- Some change has no update. -/
  | unrenderable (cause : MappingError)
  | rejected (count : Nat) (cause : StoreError) (update : String)
  | interrupted
  deriving DecidableEq, Repr

namespace CommitError

/-- What an error says. -/
def message : CommitError → String
  | .inProgress => "A commit is already in progress"
  | .unrenderable cause => cause.message
  | .rejected count cause _ =>
    "Commit of " ++ toString count ++ " change(s) failed: " ++ cause.message
  | .interrupted => "The store was interrupted"

/-- The update that failed; empty where none was sent. -/
def update : CommitError → String
  | .rejected _ _ update => update
  | _ => ""

end CommitError

/-- What one request carries. -/
structure Batch where
  changes : List Change
  update : String
  deriving DecidableEq, Repr

namespace Journal

/-- The journal without changes. -/
def empty : Journal := ⟨[], false⟩

/-- Adds a change at the end. -/
def append (j : Journal) (c : Change) : Journal :=
  { j with changes := j.changes ++ [c] }

/-- Drops all changes. -/
def clear (j : Journal) : Journal :=
  { j with changes := [] }

/-- The update that a flush would send. -/
def update (j : Journal) : Except MappingError String :=
  Change.combine j.changes

/-- Fixes what a flush sends, and starts committing.  Where nothing waits nothing is sent. -/
def start (j : Journal) : Except CommitError (Option (Batch × Journal)) :=
  if j.committing then .error .inProgress
  else if j.changes.isEmpty then .ok none
  else
    match j.update with
    | .ok text => .ok (some (⟨j.changes, text⟩, { j with committing := true }))
    | .error cause => .error (.unrenderable cause)

/-- Ends a flush.  On success as many changes as were sent are dropped from the front. -/
def finish (j : Journal) (b : Batch) : Outcome → Except CommitError (List Change) × Journal
  | .accepted => (.ok b.changes, ⟨j.changes.drop b.changes.length, false⟩)
  | .rejected cause =>
    (.error (.rejected b.changes.length cause b.update), { j with committing := false })
  | .interrupted => (.error .interrupted, { j with committing := false })

/-- Sends everything that waits as one request.  What happens while the request is on its way,
`trip`, may change the journal and the world around it. -/
def flush {ω : Type} (trip : String → ω → Journal → Outcome × ω × Journal) (world : ω)
    (j : Journal) : Except CommitError (List Change) × ω × Journal :=
  match j.start with
  | .error e => (.error e, world, j)
  | .ok none => (.ok [], world, j)
  | .ok (some (batch, started)) =>
    let (outcome, world, returned) := trip batch.update world started
    let (result, finished) := returned.finish batch outcome
    (result, world, finished)

end Journal

end EntityMapping
