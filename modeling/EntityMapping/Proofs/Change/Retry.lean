import EntityMapping.Journal
import EntityMapping.Proofs.Change.Replay
import Mathlib.Data.List.Induction

/-!
Sending again what was applied already.

A store may apply a request and lose its answer.  The journal then keeps the changes of the request
and sends them again, in front of those that were made since.  This does no harm where every edit
either leaves a triple alone or decides on it without looking at the graph: behind the second time
the last decision stands, as it stood behind the first.  A redirection is not of this kind, since
what it makes of a triple depends on another triple.
-/

namespace EntityMapping

namespace Edit

/-- What an edit decides about a triple: that it is there, that it is not, or nothing. -/
def verdict (t : Triple) : Edit → Option Bool
  | .add uri predicate value =>
    if t.same (.stating uri predicate value) then some true else none
  | .remove uri predicate value =>
    if t.same (.stating uri predicate value) then some false else none
  | .replace uri predicate old new =>
    if t.same (.stating uri predicate new) then some true
    else if t.same (.stating uri predicate old) then some false
    else none
  | .create c => if c.triples.any t.same then some true else none
  | .delete uri =>
    if (Term.iri uri).same t.subject || (Term.iri uri).same t.object then some false else none
  | .redirect .. => none

/-- An edit that decides about triples without looking at the graph. -/
def Decides : Edit → Prop
  | .redirect .. => False
  | _ => True

/-- The last decision of several edits about a triple. -/
def lastVerdict (t : Triple) (edits : List Edit) : Option Bool :=
  edits.foldl (fun last e => e.verdict t <|> last) none

variable {e : Edit} {edits : List Edit}

theorem holds_effect (he : e.Decides) (g : Graph) (t : Triple) :
    (effect g e).holds t = (e.verdict t).getD (g.holds t) := by
  cases e with
  | add uri predicate value =>
      rw [effect, Graph.holds_insert, verdict]
      cases t.same (.stating uri predicate value) <;> simp
  | remove uri predicate value =>
      rw [effect, Graph.holds_erase, verdict, Triple.same_comm]
      cases t.same (.stating uri predicate value) <;> simp
  | replace uri predicate old new =>
      rw [effect, Graph.holds_insert, Graph.holds_erase, verdict, Triple.same_comm _ t]
      cases t.same (.stating uri predicate new) <;>
        cases t.same (.stating uri predicate old) <;> simp
  | create c =>
      rw [effect, Graph.holds_insertAll, verdict]
      cases c.triples.any t.same <;> simp
  | delete uri =>
      rw [effect, Graph.holds_withoutNode, verdict]
      cases (Term.iri uri).same t.subject <;> cases (Term.iri uri).same t.object <;> simp
  | redirect oldUri newUri => exact he.elim

theorem lastVerdict_concat (t : Triple) (edits : List Edit) (e : Edit) :
    lastVerdict t (edits ++ [e]) = (e.verdict t <|> lastVerdict t edits) :=
  List.foldl_append

/-- Behind several edits a triple is what the last decision about it says, and what it was before
if there was none. -/
theorem holds_replay (hedits : ∀ e ∈ edits, e.Decides) (g : Graph) (t : Triple) :
    (replay edits g).holds t = (lastVerdict t edits).getD (g.holds t) := by
  induction edits using List.reverseRecOn with
  | nil => rfl
  | append_singleton edits e ih =>
      have hlast := hedits e (List.mem_append_right _ List.mem_cons_self)
      have hrest := ih fun other hother => hedits other (List.mem_append_left _ hother)
      rw [replay_append, lastVerdict_concat]
      refine (holds_effect hlast (replay edits g) t).trans ?_
      rw [hrest]
      cases e.verdict t <;> rfl

/-- The edits once more make no difference. -/
theorem replay_again (hedits : ∀ e ∈ edits, e.Decides) (g : Graph) :
    (replay edits (replay edits g)).Same (replay edits g) := by
  intro t
  rw [holds_replay hedits, holds_replay hedits]
  cases lastVerdict t edits <;> rfl

/-- The edits once more make no difference either to what is done behind them. -/
theorem replay_retried (hedits : ∀ e ∈ edits, e.Decides) (more : List Edit) (g : Graph) :
    (replay (edits ++ more) (replay edits g)).Same (replay more (replay edits g)) := by
  rw [replay_append]
  exact replay_congr (replay_again hedits g) more

/-- Edits that can be written have an update in common. -/
theorem exists_combine (hne : edits ≠ []) (h : ∀ e ∈ edits, e.Readable) :
    ∃ text, Change.combine (edits.map change) = .ok text := by
  have hbase : (⟨none, []⟩ : Sparql.Prologue).base = none := rfl
  obtain ⟨texts, htexts, -, -⟩ := performs_replay hbase hne h
  refine ⟨Change.separator.intercalate texts, ?_⟩
  rw [Change.combine, htexts]
  rfl

end Edit

namespace Journal

theorem foldl_append_changes (changes : List Change) (j : Journal) :
    changes.foldl append j = { j with changes := j.changes ++ changes } := by
  induction changes generalizing j with
  | nil => simp
  | cons c changes ih => simp [ih, append]

end Journal

namespace MemoryStore

/-- A store that applies an update if it can be read, and what it then answers. -/
def answering (answer : Outcome) (text : String) (m : MemoryStore) (j : Journal) :
    Outcome × MemoryStore × Journal :=
  match m.apply text with
  | .ok after => (answer, after, j)
  | .error cause => (.rejected cause, m, j)

variable {m after : MemoryStore} {text : String} {changes : List Change}

theorem flush_accepted (hne : changes ≠ []) (htext : Change.combine changes = .ok text)
    (hafter : m.apply text = .ok after) :
    Journal.flush (answering .accepted) m ⟨changes, false⟩ = (.ok changes, after, .empty) := by
  have hsome : changes.isEmpty = false := List.isEmpty_eq_false_iff.mpr hne
  simp [Journal.flush, Journal.start, Journal.update, hsome, htext, answering, hafter,
    Journal.finish, Journal.empty]

theorem flush_lost {answer : Outcome} (hanswer : answer ≠ .accepted) (hne : changes ≠ [])
    (htext : Change.combine changes = .ok text) (hafter : m.apply text = .ok after) :
    ∃ error, Journal.flush (answering answer) m ⟨changes, false⟩ =
      (.error error, after, ⟨changes, false⟩) := by
  have hsome : changes.isEmpty = false := List.isEmpty_eq_false_iff.mpr hne
  cases answer with
  | accepted => contradiction
  | rejected cause =>
      exact ⟨.rejected changes.length cause text, by
        simp [Journal.flush, Journal.start, Journal.update, hsome, htext, answering, hafter,
          Journal.finish]⟩
  | interrupted =>
      exact ⟨.interrupted, by
        simp [Journal.flush, Journal.start, Journal.update, hsome, htext, answering, hafter,
          Journal.finish]⟩

/-- Edits that can be written leave the store that they were applied to as it is if they are applied
once more. -/
theorem apply_again {once : MemoryStore} {edits : List Edit} (hne : edits ≠ [])
    (hedits : ∀ e ∈ edits, e.Readable ∧ e.Decides)
    (htext : Change.combine (edits.map Edit.change) = .ok text) {g : Graph}
    (honce : once.graph.Same (Edit.replay edits g)) :
    ∃ twice, once.apply text = .ok twice ∧ twice.graph.Same once.graph := by
  obtain ⟨twice, htwice, hsame⟩ :=
    once.apply_combine_edits hne (fun e he => (hedits e he).1) htext
  have hagain := Edit.replay_again (fun e he => (hedits e he).2) g
  exact ⟨twice, htwice,
    hsame.trans ((Edit.replay_congr honce edits).trans (hagain.trans honce.symm))⟩

/-- A flush whose request is applied but reported as failed leaves its changes in the journal.  The
next flush sends them again together with what was appended since, and the graph is then what it is
if the request is applied once and the later changes one after the other.  Also the same request
makes no difference when it is applied again. -/
theorem flush_retried (m : MemoryStore) {edits more : List Edit} (hne : edits ≠ [])
    (hedits : ∀ e ∈ edits, e.Readable ∧ e.Decides) (hmore : ∀ e ∈ more, e.Readable)
    {answer : Outcome} (hanswer : answer ≠ .accepted) :
    ∃ text once expected after error,
      Change.combine (edits.map Edit.change) = .ok text ∧ m.apply text = .ok once ∧
      once.replay (more.map Edit.change) = some expected ∧
      Journal.flush (answering answer) m ⟨edits.map Edit.change, false⟩ =
        (.error error, once, ⟨edits.map Edit.change, false⟩) ∧
      Journal.flush (answering .accepted) once
          ((more.map Edit.change).foldl Journal.append ⟨edits.map Edit.change, false⟩) =
        (.ok ((edits ++ more).map Edit.change), after, .empty) ∧
      after.graph.Same expected.graph ∧
      ∃ twice, once.apply text = .ok twice ∧ twice.graph.Same once.graph := by
  have hreadable : ∀ e ∈ edits ++ more, e.Readable := by
    intro e he
    rcases List.mem_append.mp he with he | he
    · exact (hedits e he).1
    · exact hmore e he
  have hallNe : edits ++ more ≠ [] := List.append_ne_nil_of_left_ne_nil hne more
  -- the request that is applied while its answer is lost
  obtain ⟨text, htext⟩ := Edit.exists_combine hne fun e he => (hedits e he).1
  obtain ⟨once, honce, hgraph⟩ := m.apply_combine_edits hne (fun e he => (hedits e he).1) htext
  obtain ⟨error, hlost⟩ := flush_lost hanswer (mt List.map_eq_nil_iff.mp hne) htext honce
  -- the request that carries its changes again
  obtain ⟨again, hagain⟩ := Edit.exists_combine hallNe hreadable
  obtain ⟨after, hafter, hretried⟩ := once.apply_combine_edits hallNe hreadable hagain
  obtain ⟨expected, hexpected, hlater⟩ := once.replay_edits hmore
  refine ⟨text, once, expected, after, error, htext, honce, hexpected, hlost, ?_, ?_,
    apply_again hne hedits htext hgraph⟩
  · rw [Journal.foldl_append_changes, ← List.map_append]
    exact flush_accepted (mt List.map_eq_nil_iff.mp hallNe) hagain hafter
  · have hsent := hretried.trans (Edit.replay_congr hgraph (edits ++ more))
    have hidle := Edit.replay_retried (fun e he => (hedits e he).2) more m.graph
    have honly := (Edit.replay_congr hgraph.symm more).trans hlater.symm
    exact hsent.trans (hidle.trans honly)

theorem decides_noteEdits : ∀ e ∈ noteEdits.take 5, e.Readable ∧ e.Decides := by
  intro e he
  refine ⟨readable_noteEdits e (List.mem_of_mem_take he), ?_⟩
  simp only [noteEdits, List.take_succ_cons, List.take_zero, List.mem_cons, List.not_mem_nil,
    or_false] at he
  rcases he with rfl | rfl | rfl | rfl | rfl <;> trivial

theorem flush_retried_notes :
    (∀ e ∈ noteEdits.take 5, e.Readable ∧ e.Decides) ∧
    ∃ text once expected after error,
      Change.combine ((noteEdits.take 5).map Edit.change) = .ok text ∧
      noteStore.apply text = .ok once ∧
      once.replay (noteEdits.reverse.map Edit.change) = some expected ∧
      Journal.flush (answering .interrupted) noteStore
          ⟨(noteEdits.take 5).map Edit.change, false⟩ =
        (.error error, once, ⟨(noteEdits.take 5).map Edit.change, false⟩) ∧
      Journal.flush (answering .accepted) once
          ((noteEdits.reverse.map Edit.change).foldl Journal.append
            ⟨(noteEdits.take 5).map Edit.change, false⟩) =
        (.ok ((noteEdits.take 5 ++ noteEdits.reverse).map Edit.change), after, .empty) ∧
      after.graph.Same expected.graph ∧
      ∃ twice, once.apply text = .ok twice ∧ twice.graph.Same once.graph :=
  ⟨decides_noteEdits, flush_retried noteStore (List.cons_ne_nil _ _) decides_noteEdits
    (fun e he => readable_noteEdits e (List.mem_reverse.mp he)) Outcome.noConfusion⟩

end MemoryStore

end EntityMapping
