import EntityMapping.Proofs.Entity.Founded
import EntityMapping.Proofs.Session.Run

/-!
Whether what waits in a journal can be sent.

A mutation checks the value that it writes.  It takes the rest of its change from the entity, and
nobody has checked what was loaded into that.  So a change without an update mentions an IRI or a
term that was loaded, or an entity as the target of a redirection; and where all that is loaded can
be bound, every commit is either accepted or rejected by the store.
-/

namespace EntityMapping

namespace Session

variable {σ : Type} {s s' : Session σ} {clean : Prop}

/-- What waits can be sent as far as mutations have checked it and, if what was loaded is clean, as
far as it was loaded. -/
structure Renders (clean : Prop) (s : Session σ) : Prop where
  writes : ∀ c ∈ s.journal.changes, c.Writes
  entities : clean → ∀ e ∈ s.entities, e.Founded
  founded : clean → ∀ c ∈ s.journal.changes, c.Founded

/-- Other entities, if they are as good, and no other changes. -/
theorem Renders.congr (h : s.Renders clean)
    (hentities : clean → (∀ e ∈ s.entities, e.Founded) → ∀ e ∈ s'.entities, e.Founded)
    (hchanges : s'.journal.changes ⊆ s.journal.changes) : s'.Renders clean where
  writes c hc := h.writes c (hchanges hc)
  entities hclean := hentities hclean (h.entities hclean)
  founded hclean c hc := h.founded hclean c (hchanges hc)

theorem mem_setEntity {id : EntityId} {e after : Entity} (h : e ∈ (s.setEntity id after).entities) :
    e ∈ s.entities ∨ e = after :=
  List.mem_or_eq_of_mem_set h

theorem mem_of_entity? {id : EntityId} {e : Entity} (h : s.entity? id = some e) :
    e ∈ s.entities :=
  List.mem_of_getElem? h

theorem record_entities (s : Session σ) (id : EntityId) (c : Change) :
    (s.record id c).entities = s.entities := by
  unfold record markDirty
  split <;> rfl

/-- A change is recorded beside its entity. -/
theorem Renders.record (h : s.Renders clean) {id : EntityId} {c : Change}
    (hentities : clean → (∀ e ∈ s.entities, e.Founded) → ∀ e ∈ s'.entities, e.Founded)
    (hjournal : s'.journal = s.journal) (hwrites : c.Writes)
    (hfounded : clean → (∀ e ∈ s.entities, e.Founded) → c.Founded) :
    (s'.record id c).Renders clean := by
  have hmem : ∀ d ∈ (s'.record id c).journal.changes, d ∈ s.journal.changes ∨ d = c := by
    intro d hd
    rw [record_changes, hjournal] at hd
    exact (List.mem_append.mp hd).imp_right List.mem_singleton.mp
  constructor
  · intro d hd
    rcases hmem d hd with hd | rfl
    · exact h.writes d hd
    · exact hwrites
  · intro hclean
    rw [record_entities]
    exact hentities hclean (h.entities hclean)
  · intro hclean d hd
    rcases hmem d hd with hd | rfl
    · exact h.founded hclean d hd
    · exact hfounded hclean (h.entities hclean)

end Session

/-! ### Mutations -/

namespace Mutation

variable {σ : Type} {s : Session σ} {clean : Prop}

/-- A mutation that brings nothing in that cannot be bound: the predicates of a type, and the IRI of
an entity that is a target, which has to be one of the session. -/
def Clean (s : Session σ) : Mutation → Prop
  | .create t _ => t.Accepted
  | .redirect _ (.entity id uri) => (s.entity? id).map Entity.uri = some uri
  | _ => True

/-- Where a mutation of an entity keeps it as good as it was, and records a change that is as
good. -/
theorem renders_mutate (h : s.Renders clean) (id : EntityId)
    {f : Entity → Except MappingError (Option (Entity × Change))}
    (hf : ∀ {e after c}, e ∈ s.entities → f e = .ok (some (after, c)) → c.Writes ∧
      (clean → (∀ e ∈ s.entities, e.Founded) → after.Founded ∧ c.Founded)) :
    ((s.mutate id f).toOption.getD s).Renders clean := by
  unfold Session.mutate
  cases he : s.entity? id with
  | none => exact h
  | some e =>
      rcases hmutated : f e with cause | - | ⟨after, c⟩
      · simp only [hmutated]
        exact h
      · simp only [hmutated]
        exact h
      · simp only [hmutated]
        obtain ⟨hwrites, hfounded⟩ := hf (Session.mem_of_entity? he) hmutated
        refine h.record (fun hclean hall e he => ?_) rfl hwrites fun hclean hall =>
          (hfounded hclean hall).2
        rcases Session.mem_setEntity he with he | rfl
        · exact hall e he
        · exact (hfounded hclean hall).1

/-- A mutation of an entity that writes a value. -/
theorem renders_update (h : s.Renders clean) (id : EntityId)
    {f : Entity → Except MappingError (Option (Entity × Change))}
    (hf : ∀ {e after c}, f e = .ok (some (after, c)) → ∃ bound : Term → Prop,
      e.Updates bound after c ∧ ∀ t, bound t → t.Bindable) :
    ((s.mutate id f).toOption.getD s).Renders clean := by
  refine renders_mutate h id fun he hmutated => ?_
  obtain ⟨bound, hupdates, hbound⟩ := hf hmutated
  exact ⟨hupdates.writes hbound, fun _ hall => hupdates.founded (hall _ he) hbound⟩

theorem renders_create (h : s.Renders clean) (t : EntityType) (values : InitialValues)
    (hclean : clean → t.Accepted) : (s.create t values).2.Renders clean := by
  have hsteps := steps_create s t values
  generalize (s.create t values).2 = s' at hsteps
  cases hsteps with
  | refused suffixes => exact h.congr (fun _ hall => hall) (List.Subset.refl _)
  | changed he hafter hvalue =>
      -- the entity that a creation brings has a number of its own
      exact absurd he (by simp [author, Session.entity?])
  | created hdraft =>
      refine h.record (fun hc hall e he => ?_) rfl trivial fun _ _ => trivial
      rcases List.mem_append.mp he with he | he
      · exact hall e he
      · exact List.mem_singleton.mp he ▸ EntityType.founded_of_draft hdraft (hclean hc)

/-- What a redirection checks, and what it takes over from an entity. -/
theorem accepted_of_redirect {id : EntityId} {v : Value} (hclean : Clean s (.redirect id v))
    (hall : ∀ e ∈ s.entities, e.Founded) {gone : Bool} {target : String}
    (h : Entity.redirectTarget v gone = .ok target) : AcceptedIri target := by
  rcases Entity.redirectTarget_ok h with haccepted | ⟨other, rfl⟩
  · exact haccepted
  · obtain ⟨e, he, rfl⟩ := Option.map_eq_some_iff.mp hclean
    exact (hall e (Session.mem_of_entity? he)).uri

theorem renders_run (h : s.Renders clean) (m : Mutation) (hclean : clean → m.Clean s) :
    (m.run s).Renders clean := by
  cases m with
  | create t values => exact renders_create h t values hclean
  | set id name v =>
      exact renders_update h id fun hset => ⟨_, Entity.set_updates hset,
        fun t ht => Entity.bindable_of_binds ht.2⟩
  | add id name v =>
      exact renders_update h id fun hadd => ⟨_, Entity.add_updates (map_some_eq_ok hadd),
        fun t ht => Entity.bindable_of_binds ht⟩
  | remove id name v =>
      exact renders_update h id fun hremove => ⟨_, Entity.remove_updates (map_some_eq_ok hremove),
        fun t ht => Entity.bindable_of_binds ht⟩
  | delete id =>
      refine renders_mutate h id fun {e after c} he hdelete => ?_
      obtain ⟨rfl, rfl⟩ := Entity.delete_eq_ok (map_some_eq_ok hdelete)
      refine ⟨trivial, fun _ hall => ?_⟩
      obtain ⟨huri, haccepted, hvalues, hcommitted⟩ := hall e he
      exact ⟨⟨huri, haccepted, hvalues, hcommitted⟩, huri⟩
  | redirect id target =>
      refine renders_mutate h id fun {e after c} he hredirect => ?_
      obtain ⟨rfl, iri, htarget, rfl⟩ := Entity.redirect_eq_ok (map_some_eq_ok hredirect)
      refine ⟨trivial, fun hc hall => ?_⟩
      obtain ⟨huri, haccepted, hvalues, hcommitted⟩ := hall e he
      exact ⟨⟨huri, haccepted, hvalues, hcommitted⟩, huri,
        accepted_of_redirect (hclean hc) hall htarget⟩

end Mutation

/-! ### Loads -/

namespace Session

variable {σ : Type} {s : Session σ} {clean : Prop} {t : EntityType} {rows : List Row}

theorem founded_refresh (hall : ∀ e ∈ s.entities, e.Founded) (id : EntityId)
    {state : EntityState} (hstate : state.Bindable) :
    ∀ e ∈ (s.refresh id state).entities, e.Founded := by
  obtain ⟨-, hkept⟩ | ⟨e, he, -, hset⟩ := s.refresh_cases id state
  · rw [hkept]
    exact hall
  · rw [hset]
    intro other hother
    rcases mem_setEntity hother with hother | rfl
    · exact hall other hother
    · exact (hall e (mem_of_entity? he)).refresh hstate

theorem founded_instantiate (hall : ∀ e ∈ s.entities, e.Founded) {uri : String}
    (haccepted : t.Accepted) (huri : AcceptedIri uri) (hstate : (t.stateIn rows).Bindable) :
    ∀ e ∈ (s.instantiate t uri rows).2.entities, e.Founded := by
  have htold : ∀ e ∈ ((t.violationsIn uri rows).foldl notify s).entities, e.Founded := by
    rw [foldl_notify]
    exact hall
  obtain ⟨id, -, hmade⟩ | ⟨-, hmade⟩ := s.instantiate_cases t uri rows
  · have htouched : ∀ e ∈ (((t.violationsIn uri rows).foldl notify s).cached t uri).2.entities,
        e.Founded := htold
    rw [hmade]
    exact founded_refresh htouched id hstate
  · rw [hmade]
    intro e he
    rcases List.mem_append.mp he with he | he
    · exact htold e he
    · exact List.mem_singleton.mp he ▸ ⟨huri, haccepted, hstate, hstate⟩

theorem founded_instantiateAll (hall : ∀ e ∈ s.entities, e.Founded)
    (hrows : t.ReadsBindable rows) {uris : List String} (huris : ∀ uri ∈ uris, AcceptedIri uri) :
    ∀ e ∈ (s.instantiateAll t rows uris).2.entities, e.Founded := by
  induction uris generalizing s with
  | nil => exact hall
  | cons uri rest ih =>
      have hstate : (t.stateIn (t.rowsAbout uri rows)).Bindable :=
        hrows.stateIn (List.filter_subset_self _)
      have hfirst := founded_instantiate hall hrows.accepted (huris uri List.mem_cons_self) hstate
      exact ih hfirst fun other hother => huris other (List.mem_cons_of_mem _ hother)

theorem accepted_of_mem_subjectsIn (hrows : t.ReadsBindable rows) :
    ∀ uri ∈ t.subjectsIn rows, AcceptedIri uri := by
  intro uri huri
  obtain ⟨row, hrow, hsubject⟩ :=
    List.mem_filterMap.mp (Sparql.Algebra.mem_distinctNames.mp huri)
  exact hrows.subjects row hrow uri hsubject

variable [GraphStore σ]

theorem founded_loadText (hall : ∀ e ∈ s.entities, e.Founded) {text : String}
    (hrows : ∀ rows, (s.ask text).1 = .ok rows → t.ReadsBindable rows) :
    ∀ e ∈ (s.loadText t text).2.entities, e.Founded := by
  have hasked : ∀ e ∈ (s.ask text).2.entities, e.Founded := hall
  obtain ⟨cause, -, hload⟩ | ⟨rows, hanswer, hload⟩ := s.loadText_cases t text
  · rw [hload]
    exact hasked
  · rw [hload]
    have hread := hrows rows hanswer
    exact founded_instantiateAll hasked hread (accepted_of_mem_subjectsIn hread)

theorem founded_load (hall : ∀ e ∈ s.entities, e.Founded) {uri : String}
    (hrows : (s.cached t uri).1 = none → AcceptedIri uri →
      ∀ rows, (s.ask (t.oneText (.iri uri))).1 = .ok rows → t.ReadsBindable rows) :
    ∀ e ∈ (s.load t uri).2.entities, e.Founded := by
  obtain ⟨id, -, hload⟩ | ⟨hpeek, ⟨cause, -, hload⟩ | ⟨iri, hiri, hload⟩⟩ := s.load_cases t uri
  · rw [hload]
    exact hall
  · rw [hload]
    exact hall
  · obtain ⟨rfl, haccepted⟩ := checkIri_ok hiri
    rw [hload]
    exact founded_loadText hall (hrows ((Cache.get_fst _ _).trans hpeek) haccepted)

end Session

/-! ### Actions -/

namespace Action

variable {σ : Type} [GraphStore σ] {s : Session σ} {clean : Prop}

/-- An action that brings nothing in that cannot be bound. -/
def Clean (s : Session σ) : Action σ → Prop
  | .mutate m => m.Clean s
  | .select t text => ∀ rows, (s.ask text).1 = .ok rows → t.ReadsBindable rows
  | .load t uri => (s.cached t uri).1 = none → AcceptedIri uri →
    ∀ rows, (s.ask (t.oneText (.iri uri))).1 = .ok rows → t.ReadsBindable rows
  | .register _ | .listen _ | .store _ => True

theorem renders_run (h : s.Renders clean) (a : Action σ) (hclean : clean → a.Clean s) :
    (a.run s).Renders clean := by
  cases a with
  | mutate m => exact Mutation.renders_run h m hclean
  | select t text =>
      obtain ⟨hjournal, -⟩ := (Session.loads_loadText s t text).records_nothing
      exact h.congr (fun hc hall => Session.founded_loadText hall (hclean hc))
        (hjournal ▸ List.Subset.refl _)
  | load t uri =>
      obtain ⟨hjournal, -⟩ := (Session.loads_load s t uri).records_nothing
      exact h.congr (fun hc hall => Session.founded_load hall (hclean hc))
        (hjournal ▸ List.Subset.refl _)
  | register t => exact h.congr (fun _ hall => hall) (List.Subset.refl _)
  | listen f => exact h.congr (fun _ hall => hall) (List.Subset.refl _)
  | store f => exact h.congr (fun _ hall => hall) (List.Subset.refl _)

/-- No action begins or ends a commit. -/
theorem run_committing (s : Session σ) (a : Action σ) :
    (a.run s).journal.committing = s.journal.committing := by
  cases a with
  | mutate m =>
      have hsteps := m.run_steps s
      change (m.run s).journal.committing = _
      generalize m.run s = s' at hsteps
      cases hsteps with
      | refused suffixes => rfl
      | changed he hafter hvalue => rw [Session.record_journal]; rfl
      | created hdraft => rw [Session.keepCreated, Session.record_journal]; rfl
  | select t text =>
      obtain ⟨hjournal, -⟩ := (Session.loads_loadText s t text).records_nothing
      exact congrArg Journal.committing hjournal
  | load t uri =>
      obtain ⟨hjournal, -⟩ := (Session.loads_load s t uri).records_nothing
      exact congrArg Journal.committing hjournal
  | register t => rfl
  | listen f => rfl
  | store f => rfl

end Action

end EntityMapping
