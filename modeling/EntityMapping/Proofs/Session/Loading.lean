import EntityMapping.Proofs.Cache
import EntityMapping.Session.Loading

/-!
What loading does to a session.

A load is a sequence of small steps.  Each of them leaves the entities alone, or refreshes one that
has no changes of its own, or brings a new one that holds what the store holds.  None of them
touches the journal.
-/

namespace EntityMapping.Session

variable {σ : Type}

theorem entity?_setEntity (s : Session σ) {id : EntityId} {e : Entity} (h : s.entity? id = some e)
    (after : Entity) (other : EntityId) :
    (s.setEntity id after).entity? other = if other = id then some after else s.entity? other := by
  obtain ⟨hlt, -⟩ := List.getElem?_eq_some_iff.mp h
  by_cases hother : other = id
  · subst hother
    simp [setEntity, entity?, hlt]
  · have hne : id ≠ other := fun heq => hother heq.symm
    simp [setEntity, entity?, hother, List.getElem?_set_ne hne]

theorem entity?_eq_none {s : Session σ} {id : EntityId} : s.entity? id = none ↔ s.entities.length ≤ id :=
  List.getElem?_eq_none_iff

theorem entity?_addEntity (s : Session σ) (e : Entity) (id : EntityId) :
    (s.addEntity e).2.entity? id =
      if id = s.entities.length then some e else s.entity? id := by
  rcases Nat.lt_trichotomy id s.entities.length with hid | rfl | hid
  · simp [addEntity, entity?, List.getElem?_append_left hid, Nat.ne_of_lt hid]
  · simp [addEntity, entity?]
  · have hlength : (s.entities ++ [e]).length ≤ id := by
      simpa using Nat.succ_le_of_lt hid
    simp [addEntity, entity?, List.getElem?_eq_none hlength,
      List.getElem?_eq_none (Nat.le_of_lt hid), Nat.ne_of_gt hid]

/-! ### What a load does, by cases -/

/-- To tell of violations changes nothing but what was heard and who still listens. -/
theorem foldl_notify (vs : List Violation) (s : Session σ) :
    vs.foldl notify s = { s with
      heard := (vs.foldl notify s).heard
      listeners := (vs.foldl notify s).listeners } := by
  induction vs generalizing s with
  | nil => rfl
  | cons v vs ih => exact ih (s.notify v)

theorem cache_foldl_notify (s : Session σ) (vs : List Violation) :
    (vs.foldl notify s).cache = s.cache := by
  rw [foldl_notify]

theorem cached_of_present {s : Session σ} {t : EntityType} {uri : String} {id : EntityId}
    (h : s.cache.peek (t.name, uri) = some id) :
    s.cached t uri = (some id, (s.cached t uri).2) :=
  Prod.ext ((Cache.get_fst _ _).trans h) rfl

theorem cached_of_absent {s : Session σ} {t : EntityType} {uri : String}
    (h : s.cache.peek (t.name, uri) = none) : s.cached t uri = (none, s) := by
  rw [cached, Cache.get_of_absent h]

theorem mem_cached_of_peek {s : Session σ} {t : EntityType} {uri : String} {id : EntityId}
    (h : s.cache.peek (t.name, uri) = some id) :
    ((t.name, uri), some id) ∈ (s.cached t uri).2.cache.entries :=
  Cache.mem_get_of_peek h

/-- An entity is refreshed unless it has changes of its own. -/
theorem refresh_cases (s : Session σ) (id : EntityId) (state : EntityState) :
    (id ∈ s.dirty ∨ s.entity? id = none) ∧ s.refresh id state = s ∨
      ∃ e, s.entity? id = some e ∧ id ∉ s.dirty ∧
        s.refresh id state = s.setEntity id (e.refresh state) := by
  unfold refresh
  split
  · next hdirty => exact Or.inl ⟨Or.inl (by simpa [isDirty] using hdirty), rfl⟩
  · next hclean =>
      split
      · next hnone => exact Or.inl ⟨Or.inr hnone, rfl⟩
      · next e he => exact Or.inr ⟨e, he, by simpa [isDirty] using hclean, rfl⟩

/-- The entity of rows is the one that the cache has, or a new one. -/
theorem instantiate_cases (s : Session σ) (t : EntityType) (uri : String) (rows : List Row) :
    (∃ id, s.cache.peek (t.name, uri) = some id ∧ s.instantiate t uri rows =
        (id, (((t.violationsIn uri rows).foldl notify s).cached t uri).2.refresh id
          (t.stateIn rows))) ∨
      s.cache.peek (t.name, uri) = none ∧ s.instantiate t uri rows =
        ((t.violationsIn uri rows).foldl notify s).addEntity (.loaded t uri (t.stateIn rows)) := by
  have hcache := cache_foldl_notify s (t.violationsIn uri rows)
  unfold instantiate
  dsimp only
  generalize (t.violationsIn uri rows).foldl notify s = told at hcache ⊢
  rw [← hcache]
  cases hpeek : told.cache.peek (t.name, uri) with
  | none => exact Or.inr ⟨rfl, by rw [cached_of_absent hpeek]⟩
  | some id => exact Or.inl ⟨id, rfl, by rw [cached_of_present hpeek]⟩

theorem instantiateAll_cons (s : Session σ) (t : EntityType) (rows : List Row) (uri : String)
    (rest : List String) : s.instantiateAll t rows (uri :: rest) =
      let made := s.instantiate t uri (t.rowsAbout uri rows)
      (made.1 :: (made.2.instantiateAll t rows rest).1, (made.2.instantiateAll t rows rest).2) :=
  rfl

section Store

variable [GraphStore σ]

theorem loadText_ok {s : Session σ} (t : EntityType) {text : String} {rows : List Row}
    (hanswer : (GraphStore.query text s.store).1 = .ok rows) :
    s.loadText t text =
      (.ok ((s.ask text).2.instantiateAll t rows (t.subjectsIn rows)).1,
        ((s.ask text).2.instantiateAll t rows (t.subjectsIn rows)).2) := by
  have hask : s.ask text = (.ok rows, (s.ask text).2) := Prod.ext hanswer rfl
  rw [loadText, hask]
  rfl

/-- A selection that the store refuses changes nothing but the store; one that it answers makes the
entities of the rows. -/
theorem loadText_cases (s : Session σ) (t : EntityType) (text : String) :
    (∃ cause, (s.ask text).1 = .error cause ∧
        s.loadText t text = (.error (.store cause), (s.ask text).2)) ∨
      ∃ rows, (s.ask text).1 = .ok rows ∧ s.loadText t text =
        (.ok ((s.ask text).2.instantiateAll t rows (t.subjectsIn rows)).1,
          ((s.ask text).2.instantiateAll t rows (t.subjectsIn rows)).2) := by
  cases hanswer : (s.ask text).1 with
  | error cause =>
      have hask : s.ask text = (.error cause, (s.ask text).2) := Prod.ext hanswer rfl
      refine Or.inl ⟨cause, rfl, ?_⟩
      rw [loadText, hask]
  | ok rows => exact Or.inr ⟨rows, rfl, loadText_ok t hanswer⟩

theorem load_of_absent {s : Session σ} {t : EntityType} {uri : String} {iri : Term}
    (hpeek : s.cache.peek (t.name, uri) = none) (hiri : checkIri uri = .ok iri) :
    s.load t uri =
      ((s.loadText t (t.oneText iri)).1.map List.head?, (s.loadText t (t.oneText iri)).2) := by
  unfold load
  rw [cached_of_absent hpeek, hiri]

/-- A load gives the entity that the cache has, refuses what is no IRI, or selects. -/
theorem load_cases (s : Session σ) (t : EntityType) (uri : String) :
    (∃ id, s.cache.peek (t.name, uri) = some id ∧
        s.load t uri = (.ok (some id), (s.cached t uri).2)) ∨
      s.cache.peek (t.name, uri) = none ∧
        ((∃ cause, checkIri uri = .error cause ∧ s.load t uri = (.error cause, s)) ∨
          ∃ iri, checkIri uri = .ok iri ∧ s.load t uri =
            ((s.loadText t (t.oneText iri)).1.map List.head?,
              (s.loadText t (t.oneText iri)).2)) := by
  cases hpeek : s.cache.peek (t.name, uri) with
  | some id =>
      refine Or.inl ⟨id, rfl, ?_⟩
      rw [load, cached_of_present hpeek]
  | none =>
      cases hiri : checkIri uri with
      | error cause =>
          refine Or.inr ⟨rfl, Or.inl ⟨cause, rfl, ?_⟩⟩
          rw [load, cached_of_absent hpeek]
          simp only [hiri]
      | ok iri => exact Or.inr ⟨rfl, Or.inr ⟨iri, rfl, load_of_absent hpeek hiri⟩⟩

end Store

/-! ### The steps of a load -/

/-- A step that leaves the entities and the journal alone, and brings nothing into the cache. -/
structure Quiet (s s' : Session σ) : Prop where
  journal : s'.journal = s.journal
  dirty : s'.dirty = s.dirty
  redirtied : s'.redirtied = s.redirtied
  entities : s'.entities = s.entities
  pinned : s'.cache.pinned = s.cache.pinned
  entries : ∀ entry ∈ s'.cache.entries, entry ∈ s.cache.entries

theorem Quiet.refl (s : Session σ) : Quiet s s :=
  ⟨rfl, rfl, rfl, rfl, rfl, fun _ h => h⟩

theorem quiet_cached (s : Session σ) (t : EntityType) (uri : String) :
    Quiet s (s.cached t uri).2 :=
  ⟨rfl, rfl, rfl, rfl, Cache.get_pinned _ _, fun _ h => Cache.mem_of_mem_get h⟩

/-- The steps of a load, with the entities that the store was asked about. -/
inductive Loads : Session σ → List EntityId → Session σ → Prop where
  | nothing (s : Session σ) : Loads s [] s
  | quiet {s s' s'' : Session σ} {ids : List EntityId} (hquiet : Quiet s s') (hmore : Loads s' ids s'') : Loads s ids s''
  /-- An entity that has changes of its own keeps them. -/
  | kept {s s' : Session σ} {ids : List EntityId} {id : EntityId} (hdirty : id ∈ s.dirty) (hmore : Loads s ids s') :
      Loads s (id :: ids) s'
  /-- The cache may name an entity that the session does not have. -/
  | unknown {s s' : Session σ} {ids : List EntityId} {id : EntityId} (hnone : s.entity? id = none)
      (hcached : ∃ key, (key, some id) ∈ s.cache.entries) (hmore : Loads s ids s') :
      Loads s (id :: ids) s'
  | refresh {s s' : Session σ} {ids : List EntityId} {id : EntityId} {e : Entity} (he : s.entity? id = some e)
      (hdirty : id ∉ s.dirty) (hcached : ∃ key, (key, some id) ∈ s.cache.entries)
      (state : EntityState) (hmore : Loads (s.setEntity id (e.refresh state)) ids s') :
      Loads s (id :: ids) s'
  | add {s s' : Session σ} {ids : List EntityId} (t : EntityType) (uri : String) (state : EntityState)
      (hmore : Loads (s.addEntity (.loaded t uri state)).2 ids s') :
      Loads s (s.entities.length :: ids) s'

variable {s s' s'' : Session σ}

theorem Quiet.loads (h : Quiet s s') : Loads s [] s' := .quiet h (.nothing s')

theorem Loads.append {ids more : List EntityId} (h : Loads s ids s') (hmore : Loads s' more s'') :
    Loads s (ids ++ more) s'' := by
  induction h with
  | nothing => exact hmore
  | quiet hquiet _ ih => exact .quiet hquiet (ih hmore)
  | kept hdirty _ ih => exact .kept hdirty (ih hmore)
  | unknown hnone hcached _ ih => exact .unknown hnone hcached (ih hmore)
  | refresh he hdirty hcached state _ ih => exact .refresh he hdirty hcached state (ih hmore)
  | add t uri state _ ih => exact .add t uri state (ih hmore)

/-- Loading leaves the journal alone, and no entity is forgotten. -/
theorem Loads.records_nothing {ids : List EntityId} (h : Loads s ids s') :
    s'.journal = s.journal ∧ s'.dirty = s.dirty ∧ s'.redirtied = s.redirtied ∧
      s.entities.length ≤ s'.entities.length := by
  induction h with
  | nothing => exact ⟨rfl, rfl, rfl, Nat.le_refl _⟩
  | quiet hquiet _ ih =>
      obtain ⟨hjournal, hdirty, hredirtied, hlength⟩ := ih
      exact ⟨hjournal.trans hquiet.journal, hdirty.trans hquiet.dirty,
        hredirtied.trans hquiet.redirtied, hquiet.entities ▸ hlength⟩
  | kept _ _ ih => exact ih
  | unknown _ _ _ ih => exact ih
  | refresh _ _ _ _ _ ih =>
      obtain ⟨hjournal, hdirty, hredirtied, hlength⟩ := ih
      exact ⟨hjournal, hdirty, hredirtied, by simpa [setEntity] using hlength⟩
  | add _ _ _ _ ih =>
      obtain ⟨hjournal, hdirty, hredirtied, hlength⟩ := ih
      refine ⟨hjournal, hdirty, hredirtied, Nat.le_trans ?_ hlength⟩
      simp [addEntity]

/-- An entity that the store is not asked about stays as it is, and so does a dirty one. -/
theorem Loads.entity?_eq {ids : List EntityId} (h : Loads s ids s') {id : EntityId}
    (hknown : id < s.entities.length) (hkept : id ∉ ids ∨ id ∈ s.dirty) :
    s'.entity? id = s.entity? id := by
  induction h with
  | nothing => rfl
  | quiet hquiet _ ih =>
      rw [ih (hquiet.entities ▸ hknown) (hquiet.dirty ▸ hkept), entity?, hquiet.entities]
      rfl
  | kept _ _ ih => exact ih hknown (hkept.imp_left fun h hid => h (List.mem_cons_of_mem _ hid))
  | unknown _ _ _ ih =>
      exact ih hknown (hkept.imp_left fun h hid => h (List.mem_cons_of_mem _ hid))
  | @refresh s s' ids other e he hdirty hcached state hmore ih =>
      have hne : id ≠ other := by
        rintro rfl
        exact hkept.elim (fun h => h List.mem_cons_self) hdirty
      rw [ih (by simpa [setEntity] using hknown)
        (hkept.imp_left fun h hid => h (List.mem_cons_of_mem _ hid)), entity?_setEntity s he,
        if_neg hne]
  | @add s s' ids t uri state hmore ih =>
      have hlonger : id < (s.addEntity (.loaded t uri state)).2.entities.length := by
        simpa [addEntity] using Nat.lt_succ_of_lt hknown
      rw [ih hlonger (hkept.imp_left fun h hid => h (List.mem_cons_of_mem _ hid)),
        entity?_addEntity, if_neg (Nat.ne_of_lt hknown)]

/-! ### The functions that load -/

theorem quiet_foldl_notify (s : Session σ) (vs : List Violation) :
    Quiet s (vs.foldl notify s) := by
  rw [foldl_notify]
  exact ⟨rfl, rfl, rfl, rfl, rfl, fun _ h => h⟩

theorem loads_refresh (s : Session σ) {id : EntityId} (state : EntityState)
    (hcached : ∃ key, (key, some id) ∈ s.cache.entries) : Loads s [id] (s.refresh id state) := by
  obtain ⟨hdirty | hnone, hkept⟩ | ⟨e, he, hclean, hset⟩ := s.refresh_cases id state
  · rw [hkept]
    exact .kept hdirty (.nothing s)
  · rw [hkept]
    exact .unknown hnone hcached (.nothing s)
  · rw [hset]
    exact .refresh he hclean hcached state (.nothing _)

theorem loads_instantiate (s : Session σ) (t : EntityType) (uri : String) (rows : List Row) :
    Loads s [(s.instantiate t uri rows).1] (s.instantiate t uri rows).2 := by
  have hquiet := quiet_foldl_notify s (t.violationsIn uri rows)
  have hcache := cache_foldl_notify s (t.violationsIn uri rows)
  obtain ⟨id, hpeek, hmade⟩ | ⟨-, hmade⟩ := s.instantiate_cases t uri rows
  · rw [hmade]
    rw [← hcache] at hpeek
    exact .quiet hquiet (.quiet (quiet_cached _ t uri)
      (loads_refresh _ _ ⟨(t.name, uri), mem_cached_of_peek hpeek⟩))
  · rw [hmade]
    refine .quiet hquiet ?_
    exact .add t uri _ (.nothing _)

theorem loads_instantiateAll (s : Session σ) (t : EntityType) (rows : List Row)
    (uris : List String) :
    Loads s (s.instantiateAll t rows uris).1 (s.instantiateAll t rows uris).2 := by
  induction uris generalizing s with
  | nil => exact .nothing s
  | cons uri rest ih =>
      have hfirst := loads_instantiate s t uri (t.rowsAbout uri rows)
      exact hfirst.append (ih (s.instantiate t uri (t.rowsAbout uri rows)).2)

variable [GraphStore σ]

theorem quiet_ask (s : Session σ) (text : String) : Quiet s (s.ask text).2 :=
  ⟨rfl, rfl, rfl, rfl, rfl, fun _ h => h⟩

/-- A selection gives the entities that it loads. -/
theorem loads_loadText (s : Session σ) (t : EntityType) (text : String) :
    Loads s ((s.loadText t text).1.toOption.getD []) (s.loadText t text).2 := by
  have hquiet := quiet_ask s text
  obtain ⟨cause, -, hload⟩ | ⟨rows, -, hload⟩ := s.loadText_cases t text
  · rw [hload]
    exact hquiet.loads
  · rw [hload]
    exact .quiet hquiet (loads_instantiateAll _ t rows _)

/-- The entities that a load of one IRI takes from the store: none if the cache has one. -/
def fetched (s : Session σ) (t : EntityType) (uri : String) : List EntityId :=
  match s.cached t uri with
  | (some _, _) => []
  | (none, s) =>
    match checkIri uri with
    | .error _ => []
    | .ok iri => (s.loadText t (t.oneText iri)).1.toOption.getD []

theorem loads_load (s : Session σ) (t : EntityType) (uri : String) :
    Loads s (s.fetched t uri) (s.load t uri).2 := by
  unfold fetched
  obtain ⟨id, hpeek, hload⟩ | ⟨hpeek, ⟨cause, hiri, hload⟩ | ⟨iri, hiri, hload⟩⟩ :=
    s.load_cases t uri
  · rw [cached_of_present hpeek, hload]
    exact (quiet_cached s t uri).loads
  · rw [cached_of_absent hpeek, hload]
    simp only [hiri]
    exact .nothing s
  · rw [cached_of_absent hpeek, hload]
    simp only [hiri]
    exact loads_loadText s t _

/-- Loads of single IRIs, one after the other. -/
def loadEach (s : Session σ) (loads : List (EntityType × String)) : Session σ :=
  loads.foldl (fun s l => (s.load l.1 l.2).2) s

theorem exists_loadEach_decode (s : Session σ) (p : Property) (t : Term) :
    ∃ loads, (s.decode p t).2 = s.loadEach loads := by
  unfold decode
  cases p.kind with
  | literal => exact ⟨[], rfl⟩
  | object =>
      unfold resolve
      cases s.type? p.datatype with
      | none => exact ⟨[], rfl⟩
      | some type =>
          refine ⟨[(type, t.plainText)], ?_⟩
          rw [loadEach, List.foldl_cons, List.foldl_nil]
          dsimp only
          split <;> simp [*]

theorem exists_loadEach_decodeAll (s : Session σ) (p : Property) (ts : List Term) :
    ∃ loads, (s.decodeAll p ts).2 = s.loadEach loads := by
  induction ts generalizing s with
  | nil => exact ⟨[], rfl⟩
  | cons t ts ih =>
      obtain ⟨loads, hloads⟩ := exists_loadEach_decode s p t
      unfold decodeAll
      rcases hdecoded : s.decode p t with ⟨result, decoded⟩
      rw [hdecoded] at hloads
      cases result with
      | error e => exact ⟨loads, hloads⟩
      | ok v =>
          obtain ⟨more, hmore⟩ := ih decoded
          refine ⟨loads ++ more, ?_⟩
          rw [loadEach, List.foldl_append]
          exact hmore.trans (congrArg (loadEach · more) hloads)

/-- Reading a property is nothing but loading the entities that it refers to. -/
theorem exists_loadEach_get (s : Session σ) (id : EntityId) (name : String) :
    ∃ loads, (s.get id name).2 = s.loadEach loads := by
  unfold get
  cases s.entity? id with
  | none => exact ⟨[], rfl⟩
  | some e =>
      cases hp : e.type.property name with
      | error cause =>
          refine ⟨[], ?_⟩
          simp only [hp]
          rfl
      | ok p =>
          obtain ⟨loads, hloads⟩ := exists_loadEach_decodeAll s p (e.values.terms name)
          exact ⟨loads, by simpa only [hp] using hloads⟩

/-! ### What every load keeps -/

/-- A property of the cache, the entities and the dirty entities of a session that the steps of a
load keep. -/
structure LoadInvariant (P : Session σ → Prop) : Prop where
  congr : ∀ {s s'}, P s → s'.cache = s.cache → s'.entities = s.entities → s'.dirty = s.dirty → P s'
  cached : ∀ {s}, P s → ∀ t uri, P (s.cached t uri).2
  refresh : ∀ {s id e}, P s → s.entity? id = some e → ∀ state, P (s.setEntity id (e.refresh state))
  /-- A new entity comes where the cache has none of its key. -/
  addEntity : ∀ {s e}, P s → s.cache.peek e.key = none → P (s.addEntity e).2

namespace LoadInvariant

variable {P : Session σ → Prop}

omit [GraphStore σ] in
theorem instantiate (hP : LoadInvariant P) (h : P s) (t : EntityType) (uri : String)
    (rows : List Row) : P (s.instantiate t uri rows).2 := by
  have hcache := cache_foldl_notify s (t.violationsIn uri rows)
  have htold : P ((t.violationsIn uri rows).foldl notify s) := by
    rw [foldl_notify]
    exact hP.congr h rfl rfl rfl
  obtain ⟨id, -, hmade⟩ | ⟨hpeek, hmade⟩ := s.instantiate_cases t uri rows
  · have htouched := hP.cached htold t uri
    rw [hmade]
    obtain ⟨-, hkept⟩ | ⟨e, he, -, hset⟩ := refresh_cases _ id (t.stateIn rows)
    · exact hkept ▸ htouched
    · exact hset ▸ hP.refresh htouched he _
  · rw [hmade]
    exact hP.addEntity htold (hcache ▸ hpeek)

omit [GraphStore σ] in
theorem instantiateAll (hP : LoadInvariant P) (h : P s) (t : EntityType) (rows : List Row)
    (uris : List String) : P (s.instantiateAll t rows uris).2 := by
  induction uris generalizing s with
  | nil => exact h
  | cons uri rest ih => exact ih (hP.instantiate h t uri (t.rowsAbout uri rows))

theorem loadText (hP : LoadInvariant P) (h : P s) (t : EntityType) (text : String) :
    P (s.loadText t text).2 := by
  have hasked : P (s.ask text).2 := hP.congr h rfl rfl rfl
  obtain ⟨cause, -, hload⟩ | ⟨rows, -, hload⟩ := s.loadText_cases t text
  · exact hload ▸ hasked
  · exact hload ▸ hP.instantiateAll hasked t rows _

theorem load (hP : LoadInvariant P) (h : P s) (t : EntityType) (uri : String) :
    P (s.load t uri).2 := by
  obtain ⟨id, -, hload⟩ | ⟨-, ⟨cause, -, hload⟩ | ⟨iri, -, hload⟩⟩ := s.load_cases t uri
  · exact hload ▸ hP.cached h t uri
  · exact hload ▸ h
  · exact hload ▸ hP.loadText h t _

theorem get (hP : LoadInvariant P) (h : P s) (id : EntityId) (name : String) :
    P (s.get id name).2 := by
  obtain ⟨loads, hloads⟩ := exists_loadEach_get s id name
  rw [hloads]
  clear hloads
  induction loads generalizing s with
  | nil => exact h
  | cons l loads ih => exact ih (hP.load h l.1 l.2)

end LoadInvariant

end EntityMapping.Session
