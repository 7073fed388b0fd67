import EntityMapping.Proofs.Session.View

/-!
What waits in the journal of a session.

Mutations put edits behind those that wait, and change the entities as the edits change a graph.  So
the store with the edits that wait shows what the entities have in memory.  The end of a commit
changes nothing about it: one that was refused leaves all edits to wait, and one that the store
carried out those that were put behind its own.
-/

namespace EntityMapping

/-- A mutation whose terms can be written: a creation with an IRI that no triple of the store is
about, or a mutation that writes a value. -/
inductive Mutation.Admitted (s : Session MemoryStore) : Mutation → Prop where
  | create {t : EntityType} {values : InitialValues} (hmapped : t.Mapped)
      (hreadable : ∀ d (hdraft : t.draft (s.freshIri t) values = .ok d),
        Creation.Readable ⟨t, s.freshIri t, values, d, hmapped, hdraft⟩)
      (hfresh : ∀ u ∈ s.store.graph, u.subject ≠ .iri (s.freshIri t)) :
      Admitted s (.create t values)
  | write {m : Mutation} (hvalue : m.writesValue = true)
      (hbound : ∀ e, s.entity? (m.author s) = some e → ∀ t, m.Binds e t → t.Writable) :
      Admitted s m

namespace Mutation

/-- The session after several mutations. -/
def runAll (s : Session MemoryStore) : List Mutation → Session MemoryStore
  | [] => s
  | m :: rest => runAll (m.run s) rest

/-- Whether each of several mutations is admitted when its turn comes. -/
def AdmittedAll (s : Session MemoryStore) : List Mutation → Prop
  | [] => True
  | m :: rest => m.Admitted s ∧ AdmittedAll (m.run s) rest

end Mutation

namespace Session

variable {s s' s'' : Session MemoryStore} {edits more : List Edit} {taken : List Change}

/-- Some edits were made on the way from one session to another, and the store stayed as it is. -/
structure Extends (s s' : Session MemoryStore) (edits : List Edit) : Prop where
  grows : s.Grows s'
  store : s'.store = s.store
  changes : s'.journal.changes = s.journal.changes ++ edits.map Edit.change
  readable : ∀ e ∈ edits, e.Readable
  wellFormed : s'.WellFormed
  shown : s'.Separate → ∀ g, s.Shown g → s'.Shown (Edit.replay edits g)

theorem Extends.append (h : Extends s s' edits) (hmore : Extends s' s'' more) :
    Extends s s'' (edits ++ more) where
  grows := h.grows.trans hmore.grows
  store := hmore.store.trans h.store
  changes := by rw [hmore.changes, h.changes, List.map_append, List.append_assoc]
  readable e he := by
    rcases List.mem_append.mp he with he | he
    · exact h.readable e he
    · exact hmore.readable e he
  wellFormed := hmore.wellFormed
  shown hseparate g hg := by
    have hbetween := h.shown (hseparate.of_grows hmore.grows) g hg
    rw [Edit.replay_append]
    exact hmore.shown hseparate _ hbetween

theorem Alike.extends (h : s.Alike s') (hchanges : s'.journal.changes = s.journal.changes)
    (hwell : s.WellFormed) : Extends s s' [] where
  grows := h.grows
  store := h.store.symm
  changes := by rw [hchanges, List.map_nil, List.append_nil]
  readable e he := absurd he List.not_mem_nil
  wellFormed := h.wellFormed hwell
  shown _ _ hg := h.shown hg

theorem alike_suffixes (s : Session MemoryStore) (suffixes : Suffixes) :
    s.Alike { s with suffixes := suffixes } :=
  ⟨fun _ => rfl, rfl⟩

theorem exists_extends_changed {id : EntityId} {e after : Entity} {c : Change}
    {bound : Term → Prop} (hwell : s.WellFormed) (he : s.entity? id = some e)
    (hafter : e.Updates bound after c) (hbound : ∀ t, bound t → t.Writable) :
    ∃ edit, Extends s ((s.setEntity id after).record id c) [edit] := by
  obtain ⟨halive, htype, huri, hdeleted⟩ := hafter.keeps
  obtain ⟨edit, hreadable, hedit⟩ := hafter.exists_edit (hwell id e he halive) hbound
  have hgrows : s.Grows ((s.setEntity id after).record id c) :=
    grows_changed he htype huri hdeleted
  refine ⟨edit, ?_⟩
  constructor
  · exact hgrows
  · exact record_store _ id c
  · rw [record_changes, List.map_singleton, hedit]
    rfl
  · intro other hother
    exact List.mem_singleton.mp hother ▸ hreadable
  · exact hwell.changed he hafter hbound
  · intro hseparate g hg
    exact hg.updated hwell (hseparate.of_grows hgrows) he hafter hedit

theorem extends_created {c : Creation} (hwell : s.WellFormed) (huri : c.uri = s.freshIri c.type)
    (hreadable : c.Readable)
    (hfresh : ∀ u ∈ s.store.graph, u.subject ≠ .iri (s.freshIri c.type)) :
    Extends s (s.afterCreation c.type c.draft) [.create c] := by
  constructor
  · exact grows_afterCreation s c.type c.draft
  · exact record_store _ _ _
  · refine (record_changes _ _ _).trans ?_
    rw [List.map_singleton, Edit.change, huri]
  · intro other hother
    exact List.mem_singleton.mp hother ▸ hreadable
  · exact hwell.created (huri ▸ Entity.sound_created c hreadable)
  · intro hseparate g hg
    have hcreated := hg.created hseparate hfresh
    rw [← huri] at hcreated
    exact hcreated

/-- An admitted mutation makes edits that can be written. -/
theorem exists_extends_run (hwell : s.WellFormed) {m : Mutation} (hm : m.Admitted s) :
    ∃ more, Extends s (m.run s) more := by
  have hsteps := m.run_steps s
  generalize m.run s = s' at hsteps
  cases hsteps with
  | refused m suffixes => exact ⟨[], (alike_suffixes s suffixes).extends rfl hwell⟩
  | @changed m e after c he hafter hvalue =>
      cases hm with
      | create =>
          have hnone := entity?_eq_none.mpr (Nat.le_refl s.entities.length)
          exact absurd (hnone.symm.trans he) (Option.some_ne_none e).symm
      | write hwrites hbound =>
          obtain ⟨edit, hedit⟩ :=
            exists_extends_changed hwell he (hvalue hwrites) (hbound e he)
          exact ⟨[edit], hedit⟩
  | @created t values d hdraft =>
      cases hm with
      | create hmapped hreadable hfresh =>
          have hextends := extends_created (c := ⟨t, s.freshIri t, values, d, hmapped, hdraft⟩)
            hwell rfl (hreadable d hdraft) hfresh
          exact ⟨_, hextends⟩
      | write hwrites => exact absurd hwrites Bool.false_ne_true

theorem exists_extends_runAll (hwell : s.WellFormed) {ms : List Mutation}
    (hms : Mutation.AdmittedAll s ms) : ∃ more, Extends s (Mutation.runAll s ms) more := by
  induction ms generalizing s with
  | nil => exact ⟨[], Alike.extends (.refl s) rfl hwell⟩
  | cons m ms ih =>
      obtain ⟨first, hfirst⟩ := exists_extends_run hwell hms.1
      obtain ⟨rest, hrest⟩ := ih hfirst.wellFormed hms.2
      exact ⟨first ++ rest, hfirst.append hrest⟩

/-! ### Commits -/

theorem alike_setEntity {id : EntityId} {e after : Entity} (he : s.entity? id = some e)
    (hvisible : visible after = visible e) : s.Alike (s.setEntity id after) := by
  refine ⟨fun other => ?_, rfl⟩
  rw [entity?_setEntity s he]
  by_cases hother : other = id
  · rw [if_pos hother, hother, he, Option.map_some, Option.map_some, hvisible]
  · rw [if_neg hother]

theorem alike_settle (s : Session MemoryStore) (committed : EntityId × EntityState) :
    s.Alike (s.settle committed) ∧ (s.settle committed).journal = s.journal := by
  obtain ⟨id, state⟩ := committed
  cases he : s.entity? id with
  | none =>
      have hsettle : s.settle (id, state) = s := by
        simp only [settle, markCommitted, he, ite_self]
      rw [hsettle]
      exact ⟨.refl s, rfl⟩
  | some e =>
      by_cases hid : id ∈ s.redirtied
      · have hvisible : visible (e.markCommitted state) = visible e := rfl
        rw [settle_of_redirtied hid he]
        exact ⟨alike_setEntity he hvisible, rfl⟩
      · have hvisible : visible (e.markCommitted e.values) = visible e := rfl
        have hclean : s.Alike ({ s with dirty := s.dirty.filter (· ≠ id) }.release e) :=
          ⟨fun _ => rfl, rfl⟩
        rw [settle_of_clean hid he]
        exact ⟨hclean.trans (alike_setEntity he hvisible), rfl⟩

theorem alike_settleAll (s : Session MemoryStore) (states : List (EntityId × EntityState)) :
    s.Alike (states.foldl settle s) ∧ (states.foldl settle s).journal = s.journal := by
  induction states generalizing s with
  | nil => exact ⟨.refl s, rfl⟩
  | cons committed states ih =>
      obtain ⟨hfirst, hjournal⟩ := alike_settle s committed
      obtain ⟨hrest, hsame⟩ := ih (s.settle committed)
      exact ⟨hfirst.trans hrest, hsame.trans hjournal⟩

/-- The end of a commit changes nothing that can be seen of the entities. -/
theorem alike_endCommit (s : Session MemoryStore) (c : Commit) (outcome : Outcome) :
    s.Alike (s.endCommit c outcome).2 := by
  by_cases haccepted : outcome = .accepted
  · subst haccepted
    have hsettled := alike_settleAll { s with
      journal := ⟨s.journal.changes.drop c.batch.changes.length, false⟩ } c.states
    exact ⟨hsettled.1.entity, hsettled.1.store⟩
  · obtain ⟨cause, hfailed⟩ := endCommit_of_failed haccepted s c
    rw [hfailed]
    exact ⟨fun _ => rfl, rfl⟩

theorem endCommit_accepted_journal (s : Session MemoryStore) (c : Commit) :
    (s.endCommit c .accepted).2.journal =
      ⟨s.journal.changes.drop c.batch.changes.length, false⟩ :=
  (alike_settleAll { s with
    journal := ⟨s.journal.changes.drop c.batch.changes.length, false⟩ } c.states).2

/-- Behind changes that the store has taken already wait edits that can be written, and the store
with them shows what the entities have in memory. -/
structure Pending (s : Session MemoryStore) (taken : List Change) (edits : List Edit) :
    Prop where
  changes : s.journal.changes = taken ++ edits.map Edit.change
  readable : ∀ e ∈ edits, e.Readable
  wellFormed : s.WellFormed
  shown : s.Shown (Edit.replay edits s.store.graph)

theorem Pending.append (h : s.Pending taken edits) (hmore : Extends s s' more)
    (hseparate : s'.Separate) : s'.Pending taken (edits ++ more) where
  changes := by rw [hmore.changes, h.changes, List.map_append, List.append_assoc]
  readable e he := by
    rcases List.mem_append.mp he with he | he
    · exact h.readable e he
    · exact hmore.readable e he
  wellFormed := hmore.wellFormed
  shown := by
    rw [Edit.replay_append, hmore.store]
    exact hmore.shown hseparate _ h.shown

theorem Pending.congr (h : s.Pending taken edits) (halike : s.Alike s')
    (hchanges : s'.journal.changes = s.journal.changes) : s'.Pending taken edits where
  changes := hchanges.trans h.changes
  readable := h.readable
  wellFormed := halike.wellFormed h.wellFormed
  shown := by
    rw [← halike.store]
    exact halike.shown h.shown

theorem Pending.endCommit_failed (h : s.Pending taken edits) (c : Commit) {outcome : Outcome}
    (hfailed : outcome ≠ .accepted) : (s.endCommit c outcome).2.Pending taken edits := by
  obtain ⟨cause, hended⟩ := endCommit_of_failed hfailed s c
  exact h.congr (alike_endCommit s c outcome) (by rw [hended])

/-- A commit that succeeded leaves what was put behind the changes that it carried. -/
theorem Pending.endCommit_accepted {c : Commit} (h : s.Pending c.batch.changes edits) :
    (s.endCommit c .accepted).2.Pending [] edits := by
  have halike := alike_endCommit s c .accepted
  constructor
  · rw [endCommit_accepted_journal, h.changes, List.drop_left]
    rfl
  · exact h.readable
  · exact halike.wellFormed h.wellFormed
  · rw [← halike.store]
    exact halike.shown h.shown

/-- What belongs to an entity does not depend on the store. -/
theorem owns_withStore {store : MemoryStore} {id : EntityId} {e : Entity} {p : Property}
    {predicate : String} :
    Session.Owns { s with store := store } id e p predicate ↔ s.Owns id e p predicate :=
  owns_congr rfl

/-- The update that carries what waits takes it into the store.  What was put behind it meanwhile
is what waits then. -/
theorem Pending.exists_send (h : s.Pending [] edits) (hsome : s.journal.changes ≠ [])
    {text : String} (htext : s.journal.update = .ok text) (hmore : Extends s s' more)
    (hseparate : s'.Separate) :
    ∃ store : MemoryStore, send text s' = (.accepted, { s' with store := store }) ∧
      Session.Pending { s' with store := store } s.journal.changes more := by
  have hchanges : s.journal.changes = edits.map Edit.change := h.changes
  rw [Journal.update, hchanges] at htext
  obtain ⟨after, hafter, hsame⟩ := s'.store.apply_combine_edits
    (fun hnil => hsome (hchanges.trans (congrArg _ hnil))) h.readable htext
  rw [hmore.store] at hsame
  have hview : s'.Shown (Edit.replay more after.graph) :=
    (hmore.shown hseparate _ h.shown).congr (Edit.replay_congr hsame more)
  refine ⟨after, ?_, hmore.changes, hmore.readable, hmore.wellFormed, ?_, ?_⟩
  · simp only [send, GraphStore.update, hafter]
    rfl
  · intro id e p predicate howns o
    exact hview.owned (owns_withStore.mp howns) o
  · intro uri predicate hfree o
    have hfree : ∀ {id e p}, s'.Owns id e p predicate → e.uri ≠ uri := fun howns =>
      hfree (owns_withStore.mpr howns)
    have hbefore : ∀ {id e p}, s.Owns id e p predicate → e.uri ≠ uri := by
      intro id e p howns
      obtain ⟨e', howns', huri⟩ := hmore.grows howns
      exact huri ▸ hfree howns'
    -- Places that are free now were free then, so neither edits nor the update touched them.
    calc Graph.holds (Edit.replay more after.graph) (.stating uri predicate o)
        = s'.store.graph.holds (.stating uri predicate o) := hview.others hfree o
      _ = s.store.graph.holds (.stating uri predicate o) := by rw [hmore.store]
      _ = (Edit.replay edits s.store.graph).holds (.stating uri predicate o) :=
          (h.shown.others hbefore o).symm
      _ = after.graph.holds (.stating uri predicate o) := (hsame _).symm

end Session

end EntityMapping
