import EntityMapping.Proofs.Change.Edit

/-!
Changes that are replayed on a store, with one request for each of them.
-/

namespace EntityMapping

namespace Edit

variable {g h : Graph} {e : Edit} {uri predicate : String} {value old new : Term}

theorem eq_add_of_change (he : e.change = .add uri predicate value) :
    e = .add uri predicate value := by
  cases e <;> cases he
  rfl

theorem eq_remove_of_change (he : e.change = .remove uri predicate value) :
    e = .remove uri predicate value := by
  cases e <;> cases he
  rfl

theorem eq_replace_of_change (he : e.change = .replace uri predicate old new) :
    e = .replace uri predicate old new := by
  cases e <;> cases he
  rfl

/-- What an edit makes of a graph depends on nothing but what the graph holds. -/
theorem effect_congr (hsame : g.Same h) (e : Edit) : (effect g e).Same (effect h e) := by
  intro t
  cases e with
  | add uri predicate value => rw [effect, effect, Graph.holds_insert, Graph.holds_insert, hsame]
  | remove uri predicate value => rw [effect, effect, Graph.holds_erase, Graph.holds_erase, hsame]
  | replace uri predicate old new =>
      rw [effect, effect, Graph.holds_insert, Graph.holds_erase, Graph.holds_insert,
        Graph.holds_erase, hsame]
  | create c => rw [effect, effect, Graph.holds_insertAll, Graph.holds_insertAll, hsame]
  | delete uri => rw [effect, effect, Graph.holds_withoutNode, Graph.holds_withoutNode, hsame]
  | redirect oldUri newUri =>
      rw [effect, effect, Graph.holds_redirected, Graph.holds_redirected, hsame, hsame]

theorem replay_congr (hsame : g.Same h) (edits : List Edit) :
    (replay edits g).Same (replay edits h) := by
  induction edits generalizing g h with
  | nil => exact hsame
  | cons e edits ih => exact ih (effect_congr hsame e)

/-- An edit that puts terms in the place of others, and leaves alone what is elsewhere. -/
def Exchanges (e : Edit) (uri predicate : String) (old new : List Term) : Prop :=
  ∀ g : Graph, (∀ o, g.holds (.stating uri predicate o) = o.memberOf old) →
    (∀ o, Graph.holds (effect g e) (.stating uri predicate o) = o.memberOf new) ∧
      Graph.SameElsewhere (effect g e) g uri predicate

theorem exchanges_add (uri predicate : String) (value : Term) :
    (add uri predicate value).Exchanges uri predicate [] [value] := by
  refine fun g hold => ⟨fun o => ?_, Graph.insert_elsewhere g _ _ _⟩
  refine (Graph.holds_insert_here g _ _ value o).trans ?_
  simp [hold, Term.memberOf]

theorem exchanges_replace (uri predicate : String) (old new : Term) :
    (replace uri predicate old new).Exchanges uri predicate [old] [new] := by
  refine fun g hold => ⟨fun o => ?_,
    (Graph.insert_elsewhere _ _ _ _).trans (Graph.erase_elsewhere g _ _ _)⟩
  refine (Graph.holds_insert_here _ _ _ new o).trans ?_
  rw [Graph.holds_erase_here, hold, Term.same_comm old]
  simp [Term.memberOf]

theorem replay_append (edits more : List Edit) (g : Graph) :
    replay (edits ++ more) g = replay more (replay edits g) :=
  List.foldl_append

end Edit

namespace MemoryStore

/-- The store after the updates of several changes, each of them a request of its own.  There is
none if one of them has no update, or is refused. -/
def replay (m : MemoryStore) : List Change → Option MemoryStore
  | [] => some m
  | c :: rest =>
    match c.update with
    | .error _ => none
    | .ok text =>
      match m.apply text with
      | .error _ => none
      | .ok after => after.replay rest

/-- Edits that can be written do to a store what they do to its graph. -/
theorem replay_edits (m : MemoryStore) {edits : List Edit} (h : ∀ e ∈ edits, e.Readable) :
    ∃ after, m.replay (edits.map Edit.change) = some after ∧
      Graph.Same after.graph (Edit.replay edits m.graph) := by
  induction edits generalizing m with
  | nil => exact ⟨m, rfl, Graph.Same.refl m.graph⟩
  | cons e edits ih =>
      have hbase : m.prologue.base = none := rfl
      obtain ⟨text, htext, hperforms⟩ := Edit.does_effect hbase (h e List.mem_cons_self)
      obtain ⟨next, hnext, hsame, -⟩ := m.apply_of_performs hperforms
      obtain ⟨after, hafter, hrest⟩ := ih next fun other hother => h other (List.mem_cons_of_mem _ hother)
      refine ⟨after, ?_, hrest.trans (Edit.replay_congr hsame edits)⟩
      rw [List.map_cons, replay, htext]
      simp only [hnext]
      exact hafter

/-- Edits that can be written are one update for a store. -/
theorem apply_combine_edits (m : MemoryStore) {edits : List Edit} (hne : edits ≠ [])
    (h : ∀ e ∈ edits, e.Readable) {text : String}
    (htext : Change.combine (edits.map Edit.change) = .ok text) :
    ∃ after, m.apply text = .ok after ∧ Graph.Same after.graph (Edit.replay edits m.graph) := by
  have hbase : m.prologue.base = none := rfl
  obtain ⟨texts, htexts, -, hperforms⟩ := Edit.performs_replay hbase hne h
  obtain ⟨after, hafter, hsame, -⟩ := m.apply_of_performs hperforms
  rw [Change.combine, htexts] at htext
  exact ⟨after, Except.ok.inj htext ▸ hafter, hsame⟩

end MemoryStore

end EntityMapping
