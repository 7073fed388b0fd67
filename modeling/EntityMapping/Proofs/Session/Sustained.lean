import EntityMapping.Proofs.Session.Persistence
import EntityMapping.Proofs.Session.Selected
import EntityMapping.Proofs.Session.Sparing

/-!
Runs that keep what has to be there.

Rows that are about an IRI show that the store has an object for each clause of the star which is not
optional, and a creation states one for each property of one value.  While nothing is deleted or
redirected, the store with the edits that wait keeps these for all entities of the session.
-/

namespace EntityMapping

open Sparql (Algebra Clause Expr Prologue Query Solution Star)

/-! ### Rows that show what has to be there -/

namespace EntityType

variable {t : EntityType} {b : Star} {env : Prologue} {text uri : String}

/-- Texts that ask for entities of a star: for all of them, for those for which a condition holds,
or for that of one IRI. -/
inductive Asks (t : EntityType) (b : Star) (env : Prologue) (text : String) : Prop where
  | all (hread : Query.read env text =
      some (.select (.project b.body t.query.projected) t.query.projected))
  | chosen (e : Expr) (hread : Query.read env text =
      some ((Algebra.project b.body t.query.projected).chosen e))
  | one (uri : String) (hread : Query.read env text =
      some ((Algebra.project b.body t.query.projected).about t.anchor uri))

/-- A solution whose IRI for the anchor is one at which a star holds, if it has one. -/
def Complete (b : Star) (g : Graph) (s : Solution) : Prop :=
  ∀ uri, s.term? b.anchor = some (.iri uri) → b.HoldsAt g uri

theorem Complete.restrict {g : Graph} {s : Solution} (h : Complete b g s) (names : List String) :
    Complete b g (s.restrict names) := by
  intro uri hanchor
  rw [Solution.term?_restrict] at hanchor
  split at hanchor
  · exact h uri hanchor
  · contradiction

/-- The rows of complete solutions are about such IRIs. -/
theorem Follows.holdsAt_of_rows (h : t.Follows b) {m : MemoryStore} {p : Algebra}
    {names : List String} (hp : ∀ s ∈ p.answers m.graph Solution.empty, Complete b m.graph s)
    (huri : uri ∈ t.subjectsIn (m.rows p names)) : b.HoldsAt m.graph uri := by
  obtain ⟨row, hrow⟩ := List.exists_mem_of_ne_nil _ (mem_subjectsIn.mp huri)
  obtain ⟨hrow, hsubject⟩ := mem_rowsAbout.mp hrow
  obtain ⟨s, hs, rfl⟩ := List.mem_map.mp hrow
  rw [subjectOf?_eq_some, h.anchor, MemoryStore.term?_row] at hsubject
  split at hsubject
  · exact hp s (List.mem_filter.mp hs).1 uri hsubject
  · contradiction

/-- Whatever is asked for, the star holds at the entities of the answer. -/
theorem Asks.holdsAt {m : MemoryStore} (h : t.Asks b m.prologue text) (ht : t.Presents b)
    {rows : List Row} (hselect : m.select text = .ok rows) (huri : uri ∈ t.subjectsIn rows) :
    b.HoldsAt m.graph uri := by
  have hstar : ∀ s ∈ (Algebra.project b.body t.query.projected).answers m.graph Solution.empty,
      Complete b m.graph s := by
    intro s hs
    obtain ⟨u, hu, rfl⟩ := List.mem_map.mp hs
    exact Complete.restrict (Star.of_mem_answers hu).2 _
  cases h with
  | all hread =>
      rw [MemoryStore.select, hread] at hselect
      obtain rfl := Except.ok.inj hselect
      exact ht.follows.holdsAt_of_rows hstar huri
  | chosen e hread =>
      rw [MemoryStore.select, hread] at hselect
      obtain rfl := Except.ok.inj hselect
      refine ht.follows.holdsAt_of_rows (fun s hs => ?_) huri
      obtain ⟨u, hu, rfl⟩ := List.mem_map.mp hs
      refine Complete.restrict (hstar u ?_) _
      unfold Algebra.restricted Algebra.filtered at hu
      split at hu
      · exact (List.mem_filter.mp hu).1
      · exact hu
  | one other hread =>
      obtain ⟨found, hfound, hrows⟩ := ht.exists_rows hread
      obtain rfl := Except.ok.inj (hselect.symm.trans hfound)
      obtain ⟨row, hmem⟩ := List.exists_mem_of_ne_nil _ (mem_subjectsIn.mp huri)
      obtain ⟨hrow, hsubject⟩ := mem_rowsAbout.mp hmem
      obtain rfl := Option.some.inj ((hrows.about ht.follows row hrow).symm.trans hsubject)
      exact hrows.ne_nil_iff.mp (List.ne_nil_of_mem hrow)

end EntityType

/-! ### Entities that come -/

namespace Session

section Bringing

variable {σ : Type} {s s' s'' : Session σ} {new : EntityType → String → Prop}

/-- The entities of a session are what they were before, or new ones of some kind. -/
def Brings (s : Session σ) (new : EntityType → String → Prop) (s' : Session σ) : Prop :=
  ∀ id e, s'.entity? id = some e →
    (∃ old, s.entity? id = some old ∧ e.type = old.type ∧ e.uri = old.uri) ∨ new e.type e.uri

theorem brings_of_entity? (h : ∀ id, s'.entity? id = s.entity? id) : s.Brings new s' :=
  fun id e he => Or.inl ⟨e, (h id).symm.trans he, rfl, rfl⟩

theorem Brings.trans (h : s.Brings new s') (hmore : s'.Brings new s'') : s.Brings new s'' := by
  intro id e he
  rcases hmore id e he with ⟨between, hbetween, htype, huri⟩ | hnew
  · rcases h id between hbetween with ⟨old, hold, htype', huri'⟩ | hnew
    · exact Or.inl ⟨old, hold, htype.trans htype', huri.trans huri'⟩
    · exact Or.inr (htype ▸ huri ▸ hnew)
  · exact Or.inr hnew

theorem brings_setEntity {id : EntityId} {e after : Entity} (he : s.entity? id = some e)
    (htype : after.type = e.type) (huri : after.uri = e.uri) :
    s.Brings new (s.setEntity id after) := by
  intro other found hfound
  rw [entity?_setEntity s he] at hfound
  split at hfound
  · next hid =>
      obtain rfl := Option.some.inj hfound
      exact Or.inl ⟨e, hid ▸ he, htype, huri⟩
  · exact Or.inl ⟨found, hfound, rfl, rfl⟩

theorem brings_refresh (s : Session σ) (id : EntityId) (state : EntityState) :
    s.Brings new (s.refresh id state) := by
  obtain ⟨-, hkept⟩ | ⟨e, he, -, hset⟩ := s.refresh_cases id state
  · rw [hkept]
    exact brings_of_entity? fun _ => rfl
  · rw [hset]
    exact brings_setEntity he rfl rfl

theorem brings_addEntity (s : Session σ) {e : Entity} (hnew : new e.type e.uri) :
    s.Brings new (s.addEntity e).2 := by
  intro id found hfound
  rw [entity?_addEntity] at hfound
  split at hfound
  · exact Or.inr (Option.some.inj hfound ▸ hnew)
  · exact Or.inl ⟨found, hfound, rfl, rfl⟩

theorem brings_instantiate (s : Session σ) {t : EntityType} {uri : String} (hnew : new t uri)
    (rows : List Row) : s.Brings new (s.instantiate t uri rows).2 := by
  have htold : s.Brings new ((t.violationsIn uri rows).foldl notify s) :=
    brings_of_entity? fun id => by rw [foldl_notify]; rfl
  refine htold.trans ?_
  obtain ⟨id, -, hmade⟩ | ⟨-, hmade⟩ := s.instantiate_cases t uri rows
  · rw [hmade]
    exact (brings_of_entity? fun _ => rfl).trans (brings_refresh _ id _)
  · rw [hmade]
    exact brings_addEntity _ hnew

theorem brings_instantiateAll (s : Session σ) (t : EntityType) (rows : List Row)
    {uris : List String} (hnew : ∀ uri ∈ uris, new t uri) :
    s.Brings new (s.instantiateAll t rows uris).2 := by
  induction uris generalizing s with
  | nil => exact brings_of_entity? fun _ => rfl
  | cons uri rest ih =>
      have hfirst := brings_instantiate s (hnew uri List.mem_cons_self) (t.rowsAbout uri rows)
      exact hfirst.trans (ih _ fun other hother => hnew other (List.mem_cons_of_mem _ hother))

end Bringing

section Loading

variable (s : Session MemoryStore) {t : EntityType} {new : EntityType → String → Prop}

/-- A selection brings entities that its rows are about. -/
theorem brings_loadText {text : String}
    (hnew : ∀ rows, s.store.select text = .ok rows → ∀ uri ∈ t.subjectsIn rows, new t uri) :
    s.Brings new (s.loadText t text).2 ∧ (s.loadText t text).2.store = s.store := by
  have hask : s.ask text = (s.store.select text, s) := rfl
  rw [loadText, hask]
  cases hselect : s.store.select text with
  | error cause => exact ⟨brings_of_entity? fun _ => rfl, rfl⟩
  | ok rows =>
      exact ⟨brings_instantiateAll s t rows (hnew rows hselect), store_instantiateAll s t rows _⟩

theorem brings_load {uri : String} (hnew : ∀ iri, checkIri uri = .ok iri → ∀ rows,
      s.store.select (t.oneText iri) = .ok rows → ∀ found ∈ t.subjectsIn rows, new t found) :
    s.Brings new (s.load t uri).2 ∧ (s.load t uri).2.store = s.store := by
  obtain ⟨id, -, hload⟩ | ⟨-, ⟨cause, -, hload⟩ | ⟨iri, hiri, hload⟩⟩ := s.load_cases t uri
  · rw [hload]
    exact ⟨brings_of_entity? fun _ => rfl, rfl⟩
  · rw [hload]
    exact ⟨brings_of_entity? fun _ => rfl, rfl⟩
  · rw [hload]
    exact brings_loadText s (hnew iri hiri)

end Loading

end Session

/-! ### Runs -/

/-- What is done with a session whose commits are carried out at once. -/
inductive Deed where
  | act (a : Action MemoryStore)
  | commit

namespace Deed

/-- The session after a deed. -/
def run (s : Session MemoryStore) : Deed → Session MemoryStore
  | .act a => a.run s
  | .commit => s.commit.2

/-- The session after several deeds. -/
def runAll (s : Session MemoryStore) : List Deed → Session MemoryStore
  | [] => s
  | deed :: rest => runAll (deed.run s) rest

/-- Deeds of a session that is the only writer of its store, and that deletes and redirects nothing:
entities of some types are created and loaded, their values are written as far as the changes can
be, and all is committed. -/
inductive Sparing (types : List EntityType) (star : EntityType → Star) (env : Prologue)
    (s : Session MemoryStore) : Deed → Prop where
  | create {t : EntityType} {values : InitialValues} (ht : t ∈ types) (hmapped : t.Mapped)
      (hreadable : ∀ d (hdraft : t.draft (s.freshIri t) values = .ok d),
        Creation.Readable ⟨t, s.freshIri t, values, d, hmapped, hdraft⟩) :
      Sparing types star env s (.act (.mutate (.create t values)))
  | write {m : Mutation} (hvalue : m.writesValue = true)
      (hreadable : ∀ c ∈ m.recorded s, ∃ edit : Edit, edit.Readable ∧ edit.change = c) :
      Sparing types star env s (.act (.mutate m))
  | select {t : EntityType} {text : String} (ht : t ∈ types) (hasks : t.Asks (star t) env text) :
      Sparing types star env s (.act (.select t text))
  | load {t : EntityType} {uri : String} (ht : t ∈ types)
      (hasks : ∀ iri, checkIri uri = .ok iri → t.Asks (star t) env (t.oneText iri)) :
      Sparing types star env s (.act (.load t uri))
  | register (t : EntityType) : Sparing types star env s (.act (.register t))
  | listen (f : Listeners → Listeners) : Sparing types star env s (.act (.listen f))
  | commit : Sparing types star env s .commit

/-- Whether each of several deeds is one of these when its turn comes. -/
def SparingAll (types : List EntityType) (star : EntityType → Star) (env : Prologue)
    (s : Session MemoryStore) : List Deed → Prop
  | [] => True
  | deed :: rest => deed.Sparing types star env s ∧ SparingAll types star env (deed.run s) rest

end Deed

/-- A graph has an object for all that has to be there of an entity, whose type is one of some. -/
def EntityType.Provided (types : List EntityType) (star : EntityType → Star) (g : Graph)
    (t : EntityType) (uri : String) : Prop :=
  t ∈ types ∧ ∀ predicate, t.Keeps (star t) predicate → g.States uri predicate

namespace Session

variable {types : List EntityType} {star : EntityType → Star} {env : Prologue}
  {s s' : Session MemoryStore} {edits more : List Edit}

/-- What such deeds keep true.  Edits wait that take nothing away which has to be there, and the
store has all this with them. -/
structure Sustained (types : List EntityType) (star : EntityType → Star) (env : Prologue)
    (s : Session MemoryStore) (edits : List Edit) : Prop where
  prologue : s.store.prologue = env
  waits : s.Waits edits
  spares : ∀ edit ∈ edits, edit.Spares (EntityType.Kept types star)
  known : ∀ id e, s.entity? id = some e →
    EntityType.Provided types star (Edit.replay edits s.store.graph) e.type e.uri

/-- Old entities keep what they have, where the store and the edits do, and new ones come with all
that they need. -/
theorem Sustained.change (h : Sustained types star env s edits)
    (hprologue : s'.store.prologue = s.store.prologue) (hwaits : s'.Waits more)
    (hspares : ∀ edit ∈ more, edit.Spares (EntityType.Kept types star))
    (hkeeps : ∀ uri predicate, EntityType.Kept types star predicate →
      (Edit.replay edits s.store.graph).States uri predicate →
      (Edit.replay more s'.store.graph).States uri predicate)
    (hbrings : s.Brings (EntityType.Provided types star (Edit.replay more s'.store.graph)) s') :
    Sustained types star env s' more where
  prologue := hprologue.trans h.prologue
  waits := hwaits
  spares := hspares
  known id e he := by
    rcases hbrings id e he with ⟨old, hold, htype, huri⟩ | hnew
    · obtain ⟨ht, hall⟩ := h.known id old hold
      rw [htype, huri]
      exact ⟨ht, fun predicate hkept => hkeeps _ predicate ⟨old.type, ht, hkept⟩
        (hall predicate hkept)⟩
    · exact hnew

/-- What waits and what is stored stays as it is. -/
theorem Sustained.bring (h : Sustained types star env s edits) (hjournal : s'.journal = s.journal)
    (hstore : s'.store = s.store)
    (hbrings : s.Brings (EntityType.Provided types star (Edit.replay edits s.store.graph)) s') :
    Sustained types star env s' edits := by
  refine h.change (congrArg _ hstore) ⟨hjournal.trans h.waits.journal, h.waits.readable⟩ h.spares
    (fun uri predicate _ hs => ?_) ?_
  · rw [hstore]
    exact hs
  · rw [hstore]
    exact hbrings

/-- One more edit waits. -/
theorem Sustained.record (h : Sustained types star env s edits) {edit : Edit}
    (hreadable : edit.Readable) (hspares : edit.Spares (EntityType.Kept types star))
    (hjournal : s'.journal = s.journal.append edit.change) (hstore : s'.store = s.store)
    (hbrings : s.Brings (EntityType.Provided types star
      (edit.effect (Edit.replay edits s.store.graph))) s') :
    Sustained types star env s' (edits ++ [edit]) := by
  have hview : Edit.replay (edits ++ [edit]) s'.store.graph =
      edit.effect (Edit.replay edits s.store.graph) := by
    rw [hstore, Edit.replay_append]
    rfl
  refine h.change (congrArg _ hstore) (h.waits.append hreadable hjournal) (fun other hother => ?_)
    (fun uri predicate hkept hs => ?_) (hview.symm ▸ hbrings)
  · rcases List.mem_append.mp hother with hother | hother
    · exact h.spares other hother
    · exact List.mem_singleton.mp hother ▸ hspares
  · rw [hview]
    exact hspares.states hkept hs

/-- An entity that is asked for has all that it needs. -/
theorem Sustained.provided (h : Sustained types star env s edits)
    (hcompatible : EntityType.Compatible types star) {t : EntityType} (ht : t ∈ types)
    {text : String} (hasks : t.Asks (star t) env text) {rows : List Row}
    (hselect : s.store.select text = .ok rows) {uri : String} (huri : uri ∈ t.subjectsIn rows) :
    EntityType.Provided types star (Edit.replay edits s.store.graph) t uri := by
  refine ⟨ht, fun predicate hkeeps => ?_⟩
  have hholds := (h.prologue.symm ▸ hasks).holdsAt (hcompatible.ofStar t ht).presents hselect huri
  obtain ⟨c, hc, rfl, hrequired⟩ := hkeeps.required
  exact Edit.states_replay h.spares ⟨t, ht, hkeeps⟩
    (Graph.objects_ne_nil_iff.mp (hholds c hc hrequired))

/-- A change that takes away nothing but what may be missing is that of a sparing edit. -/
theorem spares_of_change (hcompatible : EntityType.Compatible types star) {t : EntityType}
    (ht : t ∈ types) {edit : Edit} (hspares : edit.change.Spares t) :
    edit.Spares (EntityType.Kept types star) := by
  cases edit with
  | remove uri predicate value =>
      obtain ⟨p, hp, hpredicate, hmissing⟩ := hspares
      rintro ⟨other, hother, hkeeps⟩
      exact hmissing (hcompatible.apart other hother predicate hkeeps t ht p hp hpredicate)
  | delete uri => exact hspares
  | redirect oldUri newUri => exact hspares
  | _ => trivial

theorem Sustained.write (h : Sustained types star env s edits)
    (hcompatible : EntityType.Compatible types star) {m : Mutation} (hvalue : m.writesValue = true)
    (hreadable : ∀ c ∈ m.recorded s, ∃ edit : Edit, edit.Readable ∧ edit.change = c) :
    ∃ more, Sustained types star env (m.run s) more := by
  rcases m.write_cases s hvalue with hrefused | ⟨e, after, c, he, htype, huri, hspares, hrun⟩
  · rw [hrefused]
    exact ⟨edits, h⟩
  · have hchanges : (m.run s).journal.changes = s.journal.changes ++ [c] := by
      rw [hrun]
      exact record_changes _ _ _
    obtain ⟨edit, hedit, rfl⟩ := hreadable c (by
      rw [Mutation.recorded, hchanges, List.drop_left]
      exact List.mem_singleton_self c)
    have hwritten : s.Brings
        (EntityType.Provided types star (edit.effect (Edit.replay edits s.store.graph)))
        (s.setEntity (m.author s) after) := brings_setEntity he htype huri
    rw [hrun]
    exact ⟨edits ++ [edit], h.record hedit
      (spares_of_change hcompatible (h.known _ e he).1 hspares) (record_journal _ _ _)
      (record_store _ _ _) (hwritten.trans (brings_of_entity? (entity?_record _ _ _)))⟩

theorem Sustained.create (h : Sustained types star env s edits) {t : EntityType} (ht : t ∈ types)
    {values : InitialValues} (hmapped : t.Mapped)
    (hreadable : ∀ d (hdraft : t.draft (s.freshIri t) values = .ok d),
      Creation.Readable ⟨t, s.freshIri t, values, d, hmapped, hdraft⟩) :
    ∃ more, Sustained types star env (s.create t values).2 more := by
  rcases s.create_cases t values with ⟨cause, suffixes, hrefused⟩ | ⟨d, hdraft, hcreated⟩
  · rw [hrefused]
    exact ⟨edits, h.bring rfl rfl (brings_of_entity? fun _ => rfl)⟩
  · let c : Creation := ⟨t, s.freshIri t, values, d, hmapped, hdraft⟩
    have hc : Edit.Readable (.create c) := hreadable d hdraft
    have hspares : Edit.Spares (EntityType.Kept types star) (.create c) := trivial
    have hjournal : (s.afterCreation t d).journal = s.journal.append (Edit.create c).change :=
      record_journal _ _ _
    have hstore : (s.afterCreation t d).store = s.store := record_store _ _ _
    have hbrings : s.Brings (EntityType.Provided types star
        (Edit.effect (Edit.replay edits s.store.graph) (.create c))) (s.afterCreation t d) := by
      intro id e he
      rw [entity?_afterCreation] at he
      split at he
      · obtain rfl := Option.some.inj he
        exact Or.inr ⟨ht, fun predicate hkeeps =>
          hkeeps.states_draft (hreadable d hdraft).writes hdraft _⟩
      · exact Or.inl ⟨e, he, rfl, rfl⟩
    rw [hcreated]
    exact ⟨_, h.record hc hspares hjournal hstore hbrings⟩

/-- A commit succeeds, and takes all that waits into the store. -/
theorem Sustained.exists_commit (h : Sustained types star env s edits) :
    ∃ committed, s.commit = (.ok s.journal.changes.length, committed) ∧
      Sustained types star env committed [] ∧
      ∀ id e, s.entity? id = some e →
        EntityType.Provided types star committed.store.graph e.type e.uri := by
  obtain ⟨committed, hcommit, hwaits, halike, hsame, hprologue, -⟩ := h.waits.exists_commit
  have hkeeps : ∀ {uri predicate}, (Edit.replay edits s.store.graph).States uri predicate →
      committed.store.graph.States uri predicate := fun hs => hs.congr hsame
  refine ⟨committed, ?_, ?_, fun id e he => ?_⟩
  · rw [hcommit, h.waits.journal, List.length_map]
  · refine h.change hprologue hwaits (fun _ hnone => absurd hnone List.not_mem_nil)
      (fun _ _ _ => hkeeps) fun id e he => ?_
    obtain ⟨old, hold, htype, huri, -⟩ := halike.symm.exists_entity he
    exact Or.inl ⟨old, hold, htype.symm, huri.symm⟩
  · obtain ⟨ht, hall⟩ := h.known id e he
    exact ⟨ht, fun predicate hkept => hkeeps (hall predicate hkept)⟩

/-- What one deed keeps. -/
theorem Sustained.step (h : Sustained types star env s edits)
    (hcompatible : EntityType.Compatible types star) {deed : Deed}
    (hdeed : deed.Sparing types star env s) :
    ∃ more, Sustained types star env (deed.run s) more := by
  cases hdeed with
  | create ht hmapped hreadable => exact h.create ht hmapped hreadable
  | write hvalue hreadable => exact h.write hcompatible hvalue hreadable
  | @select t text ht hasks =>
      obtain ⟨hbrings, hstore⟩ := s.brings_loadText fun rows hselect uri huri =>
        h.provided hcompatible ht hasks hselect huri
      exact ⟨edits, h.bring (loads_loadText s t text).records_nothing.1 hstore hbrings⟩
  | @load t uri ht hasks =>
      obtain ⟨hbrings, hstore⟩ := s.brings_load fun iri hiri rows hselect found hfound =>
        h.provided hcompatible ht (hasks iri hiri) hselect hfound
      exact ⟨edits, h.bring (loads_load s t uri).records_nothing.1 hstore hbrings⟩
  | register t => exact ⟨edits, h.bring rfl rfl (brings_of_entity? fun _ => rfl)⟩
  | listen f => exact ⟨edits, h.bring rfl rfl (brings_of_entity? fun _ => rfl)⟩
  | commit =>
      obtain ⟨committed, hcommit, hcommitted, -⟩ := h.exists_commit
      have hrun : Deed.run s .commit = committed := congrArg Prod.snd hcommit
      exact ⟨[], hrun ▸ hcommitted⟩

/-- What a whole run keeps. -/
theorem Sustained.runAll (h : Sustained types star env s edits)
    (hcompatible : EntityType.Compatible types star) {deeds : List Deed}
    (hdeeds : Deed.SparingAll types star env s deeds) :
    ∃ more, Sustained types star env (Deed.runAll s deeds) more := by
  induction deeds generalizing s edits with
  | nil => exact ⟨edits, h⟩
  | cons deed rest ih =>
      obtain ⟨more, hmore⟩ := h.step hcompatible hdeeds.1
      exact ih hmore hdeeds.2

theorem sustained_ofStore (types : List EntityType) (star : EntityType → Star)
    (store : MemoryStore) (suffixes : Suffixes) (cacheSize : Nat) :
    Sustained types star store.prologue (.ofStore store suffixes cacheSize) [] where
  prologue := rfl
  waits := ⟨rfl, fun _ hnone => absurd hnone List.not_mem_nil⟩
  spares _ hnone := absurd hnone List.not_mem_nil
  known id e he := by simp [ofStore, entity?] at he

end Session

end EntityMapping
