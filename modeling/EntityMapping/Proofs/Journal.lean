import EntityMapping.Journal
import Mathlib.Data.List.Induction

/-!
What a journal delivers.

A request carries everything that waits when its flush begins.  What is appended while it is on its
way waits for the next one, and another flush that is tried meanwhile is refused.  So every change
is in exactly one of the requests that succeed, or it still waits, and the order is that of the
appends.

Clearing the journal while a request is on its way breaks this.  A request that succeeds drops as
many changes as it carried, whatever stands there by then.
-/

namespace EntityMapping

namespace Journal

/-- A request as the store gets it: what waited when its flush began, the update, and what becomes
of it. -/
structure Request where
  changes : List Change
  update : String
  outcome : Outcome

/-- What an onlooker has seen: all changes that were appended, and all requests that were sent. -/
structure Traffic where
  appended : List Change
  requests : List Request

namespace Traffic

/-- Nothing was seen yet. -/
def none : Traffic := ⟨[], []⟩

/-- One more change was appended. -/
def append (seen : Traffic) (c : Change) : Traffic :=
  { seen with appended := seen.appended ++ [c] }

/-- One more request was sent. -/
def send (seen : Traffic) (r : Request) : Traffic :=
  { seen with requests := seen.requests ++ [r] }

/-- The changes of the requests that succeeded, request by request. -/
def delivered (seen : Traffic) : List Change :=
  (seen.requests.filter fun r => r.outcome = .accepted).flatMap Request.changes

theorem delivered_send (seen : Traffic) (r : Request) :
    (seen.send r).delivered =
      seen.delivered ++ if r.outcome = .accepted then r.changes else [] := by
  by_cases h : r.outcome = .accepted <;> simp [delivered, send, List.filter_append, h]

end Traffic

/-- What is done with a journal.  While the request of a flush is on its way more is done, which may
be a flush again. -/
inductive Call where
  | append (c : Change)
  | flush (meanwhile : List Call) (outcome : Outcome)

namespace Call

mutual

/-- A call, before the eyes of an onlooker. -/
def run (state : Traffic × Journal) : Call → Traffic × Journal
  | .append c => (state.1.append c, state.2.append c)
  | .flush meanwhile outcome =>
    (state.2.flush (fun update seen j =>
      (outcome, runAll (seen.send ⟨j.changes, update, outcome⟩, j) meanwhile)) state.1).2

/-- Several calls in order. -/
def runAll (state : Traffic × Journal) : List Call → Traffic × Journal
  | [] => state
  | call :: rest => runAll (call.run state) rest

end

/-- The change that a call itself appends. -/
def appended? : Call → Option Change
  | .append c => some c
  | .flush _ _ => none

end Call

/-- A flush with its result, before the eyes of an onlooker. -/
def flushAmid (meanwhile : List Call) (outcome : Outcome) (seen : Traffic) (j : Journal) :
    Except CommitError (List Change) × Traffic × Journal :=
  j.flush (fun update seen j =>
    (outcome, Call.runAll (seen.send ⟨j.changes, update, outcome⟩, j) meanwhile)) seen

variable {ω : Type} {j : Journal} {seen : Traffic}

/-! ### While a request is on its way -/

theorem flush_of_committing (h : j.committing = true)
    (trip : String → ω → Journal → Outcome × ω × Journal) (world : ω) :
    j.flush trip world = (.error .inProgress, world, j) := by
  simp only [flush, start, h, if_true]

theorem Call.run_of_committing (h : j.committing = true) (call : Call) :
    call.run (seen, j) = (⟨seen.appended ++ call.appended?.toList, seen.requests⟩,
      ⟨j.changes ++ call.appended?.toList, true⟩) := by
  obtain ⟨changes, committing⟩ := j
  obtain rfl : committing = true := h
  cases call with
  | append c => rfl
  | flush meanwhile outcome =>
      rw [run, flush_of_committing rfl]
      simp [appended?]

/-- Meanwhile appends go through, and nothing else happens. -/
theorem Call.runAll_of_committing (calls : List Call) (h : j.committing = true) :
    runAll (seen, j) calls = (⟨seen.appended ++ calls.filterMap appended?, seen.requests⟩,
      ⟨j.changes ++ calls.filterMap appended?, true⟩) := by
  induction calls generalizing seen j with
  | nil =>
      obtain ⟨changes, committing⟩ := j
      obtain rfl : committing = true := h
      simp [runAll]
  | cons call calls ih =>
      rw [runAll, run_of_committing h, ih rfl]
      cases hcall : call.appended? <;> simp [hcall]

/-! ### Whole flushes -/

/-- All that a flush can come to while no request is on its way.  Where a request is sent, it is
the only one, and it carries everything that waits. -/
inductive Flushes (meanwhile : List Call) (seen : Traffic) (j : Journal) :
    Outcome → Except CommitError (List Change) × Traffic × Journal → Prop where
  | idle {outcome : Outcome} (hempty : j.changes = []) :
      Flushes meanwhile seen j outcome (.ok [], seen, j)
  | unrenderable {outcome : Outcome} {cause : MappingError} (hsome : j.changes ≠ [])
      (hcause : j.update = .error cause) :
      Flushes meanwhile seen j outcome (.error (.unrenderable cause), seen, j)
  | accepted {update : String} (hsome : j.changes ≠ []) (hupdate : j.update = .ok update) :
      Flushes meanwhile seen j .accepted (.ok j.changes,
        ⟨seen.appended ++ meanwhile.filterMap Call.appended?,
          seen.requests ++ [⟨j.changes, update, .accepted⟩]⟩,
        ⟨meanwhile.filterMap Call.appended?, false⟩)
  | rejected {update : String} (hsome : j.changes ≠ []) (hupdate : j.update = .ok update)
      (cause : StoreError) :
      Flushes meanwhile seen j (.rejected cause)
        (.error (.rejected j.changes.length cause update),
          ⟨seen.appended ++ meanwhile.filterMap Call.appended?,
            seen.requests ++ [⟨j.changes, update, .rejected cause⟩]⟩,
          ⟨j.changes ++ meanwhile.filterMap Call.appended?, false⟩)
  | interrupted {update : String} (hsome : j.changes ≠ []) (hupdate : j.update = .ok update) :
      Flushes meanwhile seen j .interrupted (.error .interrupted,
        ⟨seen.appended ++ meanwhile.filterMap Call.appended?,
          seen.requests ++ [⟨j.changes, update, .interrupted⟩]⟩,
        ⟨j.changes ++ meanwhile.filterMap Call.appended?, false⟩)

theorem flushAmid_of_empty (h : j.committing = false) (hempty : j.changes = [])
    (meanwhile : List Call) (outcome : Outcome) (seen : Traffic) :
    flushAmid meanwhile outcome seen j = (.ok [], seen, j) := by
  simp [flushAmid, flush, start, h, hempty]

theorem flushAmid_of_error (h : j.committing = false) (hsome : j.changes ≠ [])
    {cause : MappingError} (hcause : j.update = .error cause) (meanwhile : List Call)
    (outcome : Outcome) (seen : Traffic) :
    flushAmid meanwhile outcome seen j = (.error (.unrenderable cause), seen, j) := by
  simp [flushAmid, flush, start, h, hsome, hcause]

/-- The journal that a request comes back to has what was appended meanwhile behind what it
carried. -/
theorem flushAmid_of_ok (h : j.committing = false) (hsome : j.changes ≠ []) {update : String}
    (hupdate : j.update = .ok update) (meanwhile : List Call) (outcome : Outcome)
    (seen : Traffic) :
    flushAmid meanwhile outcome seen j =
      let returned : Journal := ⟨j.changes ++ meanwhile.filterMap Call.appended?, true⟩
      let (result, finished) := returned.finish ⟨j.changes, update⟩ outcome
      (result, ⟨seen.appended ++ meanwhile.filterMap Call.appended?,
        seen.requests ++ [⟨j.changes, update, outcome⟩]⟩, finished) := by
  simp [flushAmid, flush, start, h, hsome, hupdate, Call.runAll_of_committing, Traffic.send]

theorem flushAmid_flushes (h : j.committing = false) (meanwhile : List Call) (outcome : Outcome)
    (seen : Traffic) :
    Flushes meanwhile seen j outcome (flushAmid meanwhile outcome seen j) := by
  by_cases hempty : j.changes = []
  · rw [flushAmid_of_empty h hempty]
    exact .idle hempty
  · cases hupdate : j.update with
    | error cause =>
        rw [flushAmid_of_error h hempty hupdate]
        exact .unrenderable hempty hupdate
    | ok update =>
        rw [flushAmid_of_ok h hempty hupdate]
        cases outcome with
        | accepted => simpa [finish] using Flushes.accepted hempty hupdate
        | rejected cause => exact .rejected hempty hupdate cause
        | interrupted => exact .interrupted hempty hupdate

/-! ### Runs -/

/-- No request is on its way; what was delivered and what still waits is what was appended, and
every request says what it carries. -/
structure Accounts (seen : Traffic) (j : Journal) : Prop where
  balance : seen.delivered ++ j.changes = seen.appended
  idle : j.committing = false
  updates : ∀ r ∈ seen.requests, Change.combine r.changes = .ok r.update

theorem Accounts.append (h : Accounts seen j) (c : Change) :
    Accounts (seen.append c) (j.append c) where
  balance := by
    rw [Traffic.append, Journal.append, ← h.balance, List.append_assoc]
    rfl
  idle := h.idle
  updates := h.updates

/-- A request takes what it carries out of the journal if it succeeds, and nothing otherwise. -/
theorem Accounts.send (h : Accounts seen j) {update : String} (hupdate : j.update = .ok update)
    {outcome : Outcome} {new left : List Change}
    (hleft : left = if outcome = .accepted then new else j.changes ++ new) :
    Accounts ⟨seen.appended ++ new, seen.requests ++ [⟨j.changes, update, outcome⟩]⟩
      ⟨left, false⟩ where
  balance := by
    have hdelivered := seen.delivered_send ⟨j.changes, update, outcome⟩
    change (seen.send ⟨j.changes, update, outcome⟩).delivered ++ left = seen.appended ++ new
    rw [hdelivered, ← h.balance, hleft]
    split <;> simp
  idle := rfl
  updates r hr := by
    rcases List.mem_append.mp hr with hr | hr
    · exact h.updates r hr
    · obtain rfl := List.mem_singleton.mp hr
      exact hupdate

theorem Accounts.flush (h : Accounts seen j) {meanwhile : List Call} {outcome : Outcome}
    {result : Except CommitError (List Change)} {seen' : Traffic} {j' : Journal}
    (hflush : Flushes meanwhile seen j outcome (result, seen', j')) : Accounts seen' j' := by
  cases hflush with
  | idle hempty => exact h
  | unrenderable hsome hcause => exact h
  | accepted hsome hupdate => exact h.send hupdate rfl
  | rejected hsome hupdate cause => exact h.send hupdate rfl
  | interrupted hsome hupdate => exact h.send hupdate rfl

theorem accounts_run {state : Traffic × Journal} (h : Accounts state.1 state.2) (call : Call) :
    Accounts (call.run state).1 (call.run state).2 := by
  cases call with
  | append c => exact h.append c
  | flush meanwhile outcome => exact h.flush (flushAmid_flushes h.idle meanwhile outcome state.1)

theorem accounts_runAll {state : Traffic × Journal} (h : Accounts state.1 state.2)
    (calls : List Call) :
    Accounts (Call.runAll state calls).1 (Call.runAll state calls).2 := by
  induction calls generalizing state with
  | nil => exact h
  | cons call calls ih => exact ih (accounts_run h call)

/-- Whatever is appended and flushed, and whatever becomes of the requests: the requests that
succeeded carried every change once and in order, but for those that still wait.  A flush that is
tried while a request is on its way is refused without a trace, and every other one comes to what a
flush can come to. -/
theorem delivers_in_order (calls : List Call) :
    let (seen, j) := Call.runAll (.none, .empty) calls
    seen.delivered ++ j.changes = seen.appended ∧ j.committing = false ∧
      (∀ r ∈ seen.requests, Change.combine r.changes = .ok r.update) ∧
      (∀ r before inner outcome,
        let (seen', j') := Call.runAll (seen.send r, { j with committing := true }) before
        j'.committing = true ∧
          flushAmid inner outcome seen' j' = (.error .inProgress, seen', j')) ∧
      ∀ meanwhile outcome,
        Flushes meanwhile seen j outcome (flushAmid meanwhile outcome seen j) := by
  have haccounts : Accounts (Call.runAll (.none, .empty) calls).1
      (Call.runAll (.none, .empty) calls).2 :=
    accounts_runAll ⟨rfl, rfl, fun r hr => absurd hr List.not_mem_nil⟩ calls
  generalize Call.runAll (.none, .empty) calls = state at haccounts
  obtain ⟨seen, j⟩ := state
  refine ⟨haccounts.balance, haccounts.idle, haccounts.updates, fun r before inner outcome => ?_,
    fun meanwhile outcome => ?_⟩
  · rw [Call.runAll_of_committing before rfl]
    exact ⟨rfl, flush_of_committing rfl _ _⟩
  · exact flushAmid_flushes haccounts.idle meanwhile outcome seen

/-! ### Clearing while a request is on its way -/

/-- What may be done to the changes that wait while a request is on its way. -/
inductive Touch where
  | append (c : Change)
  | clear
  deriving DecidableEq

namespace Touch

/-- The journal after something was done to it. -/
def run (j : Journal) : Touch → Journal
  | .append c => j.append c
  | .clear => j.clear

/-- What was appended behind the last clearing, or all that was appended if there was none. -/
def sinceClear (touches : List Touch) : List Change :=
  touches.foldl (fun
    | kept, .append c => kept ++ [c]
    | _, .clear => []) []

theorem foldl_run (j : Journal) (touches : List Touch) :
    touches.foldl run j = { j with changes :=
      if .clear ∈ touches then sinceClear touches else j.changes ++ sinceClear touches } := by
  induction touches using List.reverseRecOn with
  | nil => simp [sinceClear]
  | append_singleton touches t ih =>
      rw [List.foldl_append, ih]
      cases t with
      | append c => by_cases h : .clear ∈ touches <;> simp [run, Journal.append, sinceClear, h]
      | clear => simp [run, Journal.clear, sinceClear]

end Touch

theorem start_eq_some {b : Batch} {started : Journal} (h : j.start = .ok (some (b, started))) :
    j.changes ≠ [] ∧ b.changes = j.changes ∧ started = { j with committing := true } := by
  unfold start at h
  split at h
  · contradiction
  · split at h
    · exact absurd (Except.ok.inj h).symm (Option.some_ne_none _)
    · next hsome =>
        split at h
        · obtain ⟨rfl, rfl⟩ := Prod.mk.inj (Option.some.inj (Except.ok.inj h))
          exact ⟨fun hempty => hsome (List.isEmpty_iff.mpr hempty), rfl, rfl⟩
        · contradiction

/-- What a flush that succeeds leaves in the journal.  Without a clearing meanwhile it is what was
appended.  Behind a clearing as many changes are lost as were sent, so all of what was appended
since is left only if nothing was. -/
theorem flush_leaves (j : Journal) (touches : List Touch) (world : ω) :
    match j.flush (fun _ world j => (.accepted, world, touches.foldl Touch.run j)) world with
    | (.ok (_ :: sent), _, after) =>
      after.committing = false ∧
        after.changes = (if .clear ∈ touches then (Touch.sinceClear touches).drop (sent.length + 1)
          else Touch.sinceClear touches) ∧
        (after.changes = Touch.sinceClear touches ↔
          .clear ∉ touches ∨ Touch.sinceClear touches = [])
    | _ => True := by
  unfold flush
  rcases hstart : j.start with e | - | ⟨batch, started⟩
  · trivial
  · trivial
  · obtain ⟨hsome, hbatch, rfl⟩ := start_eq_some hstart
    simp only [Touch.foldl_run, finish, hbatch]
    obtain ⟨c, sent, hchanges⟩ := List.exists_cons_of_ne_nil hsome
    rw [hchanges, List.length_cons]
    by_cases hclear : .clear ∈ touches
    · -- a list that something was dropped from is shorter, unless it is empty
      have hdrop : (Touch.sinceClear touches).drop (sent.length + 1) = Touch.sinceClear touches ↔
          Touch.sinceClear touches = [] := by
        refine ⟨fun h => ?_, fun h => by rw [h, List.drop_nil]⟩
        have hlength := congrArg List.length h
        rw [List.length_drop] at hlength
        exact List.length_eq_zero_iff.mp (by omega)
      simpa [hclear] using hdrop
    · simp [hclear]

/-- A change that is appended behind a clearing, while a request is on its way, is lost. -/
theorem flush_loses_appended :
    let j : Journal := ⟨[.delete "http://e/a"], false⟩
    let touches : List Touch := [.clear, .append (.delete "http://e/b")]
    let (result, _, after) :=
      j.flush (fun _ world j => (.accepted, world, touches.foldl Touch.run j)) ()
    result = .ok [.delete "http://e/a"] ∧ Touch.sinceClear touches = [.delete "http://e/b"] ∧
      after.changes = [] := by
  decide +kernel

end Journal

end EntityMapping
