import EntityMapping.Proofs.Analysis.Nullable
import EntityMapping.Proofs.Entity.Rows
import EntityMapping.Proofs.Session.Pins
import EntityMapping.Proofs.Sparql.Nesting
import Mathlib

/-!
Loading one entity, and finding it among all entities.

Both loads group the rows of a result by entity.  The rows of the one load are those of the other
that are about the IRI, since every solution binds the variable that the IRI is for.  So both give
the entity the same terms and tell the same violations, as far as the order of the rows makes no
choice for them.
-/

namespace EntityMapping

open Sparql (Algebra Prologue Query)

namespace Session

variable {σ : Type} {s s' s'' : Session σ} {size : Nat} {id other : EntityId} {e : Entity}
  {key : String × String} {t : EntityType} {uri : String}

/-! ### What listeners are told -/

/-- The listeners of a session were told of some violations. -/
def Told (s : Session σ) (vs : List Violation) (s' : Session σ) : Prop :=
  s'.heard = (vs.foldl notify s).heard ∧ s'.listeners = (vs.foldl notify s).listeners

theorem told_nothing (hheard : s'.heard = s.heard) (hlisteners : s'.listeners = s.listeners) :
    Told s [] s' :=
  ⟨hheard, hlisteners⟩

theorem notify_congr (hheard : s'.heard = s.heard) (hlisteners : s'.listeners = s.listeners)
    (vs : List Violation) : Told s vs (vs.foldl notify s') := by
  induction vs generalizing s s' with
  | nil => exact ⟨hheard, hlisteners⟩
  | cons v vs ih =>
      apply ih
      · simp only [notify, hheard, hlisteners]
      · simp only [notify, hlisteners]

theorem Told.append {vs ws : List Violation} (h : Told s vs s') (hmore : Told s' ws s'') :
    Told s (vs ++ ws) s'' := by
  obtain ⟨hheard, hlisteners⟩ := notify_congr h.1 h.2 ws
  unfold Told
  rw [List.foldl_append]
  exact ⟨hmore.1.trans hheard, hmore.2.trans hlisteners⟩

/-! ### What a load makes of rows -/

/-- No entity of the key is in the cache. -/
def Absent (s : Session σ) (key : String × String) : Prop :=
  ∀ id, (key, some id) ∉ s.cache.entries

theorem PinsDirty.absent (h : PinsDirty size s) (hnone : (s.cached t uri).1 = none) :
    s.Absent (t.name, uri) := by
  intro id hentry
  have hpeek := Cache.peek_of_mem h.bounded.keys_nodup hentry
  have hfound : (s.cached t uri).1 = s.cache.peek (t.name, uri) := Cache.get_fst _ _
  rw [hnone, hpeek] at hfound
  contradiction

/-- Entities of some IRIs were made of rows, each of the rows about it.  Entities of other IRIs are
what they were. -/
structure Made (s : Session σ) (t : EntityType) (about : String → List Row) (uris : List String)
    (ids : List EntityId) (s' : Session σ) : Prop where
  keys : ids.map s'.key? = uris.map fun uri => some (t.name, uri)
  keyed : ∀ id key, s.key? id = some key → s'.key? id = some key
  kept : ∀ id e, s.entity? id = some e → (∀ uri ∈ uris, e.key ≠ (t.name, uri)) →
    s'.entity? id = some e
  fresh : ∀ uri ∈ uris, s.Absent (t.name, uri) → ∀ id ∈ ids, s'.key? id = some (t.name, uri) →
    s'.entity? id = some (.loaded t uri (t.stateIn (about uri)))
  absent : ∀ key, s.Absent key → (∀ uri ∈ uris, key ≠ (t.name, uri)) → s'.Absent key

variable {about : String → List Row} {uris : List String} {ids : List EntityId}

theorem made_nothing (s : Session σ) (t : EntityType) (about : String → List Row) :
    Made s t about [] [] s where
  keys := rfl
  keyed _ _ h := h
  kept _ _ h _ := h
  fresh _ h := absurd h List.not_mem_nil
  absent _ h _ := h

theorem Made.mem_of_key (h : Made s t about uris ids s') (hid : id ∈ ids)
    (hkey : s'.key? id = some (t.name, uri)) : uri ∈ uris := by
  have hmem := List.mem_map_of_mem hid (f := s'.key?)
  rw [h.keys] at hmem
  obtain ⟨found, hfound, heq⟩ := List.mem_map.mp hmem
  obtain rfl := (Prod.mk.inj (Option.some.inj (heq.trans hkey))).2
  exact hfound

theorem Made.exists_of_mem (h : Made s t about uris ids s') (huri : uri ∈ uris) :
    ∃ id ∈ ids, s'.key? id = some (t.name, uri) := by
  have hmem := List.mem_map_of_mem huri (f := fun uri => some (t.name, uri))
  rw [← h.keys] at hmem
  exact List.mem_map.mp hmem

theorem Made.exists_key (h : Made s t about uris ids s') (hid : id ∈ ids) :
    ∃ uri ∈ uris, s'.key? id = some (t.name, uri) := by
  have hmem := List.mem_map_of_mem hid (f := s'.key?)
  rw [h.keys] at hmem
  obtain ⟨uri, huri, heq⟩ := List.mem_map.mp hmem
  exact ⟨uri, huri, heq.symm⟩

theorem Made.cons {first : String} (h : Made s t about [first] [id] s')
    (hrest : Made s' t about uris ids s'') (hnew : first ∉ uris) :
    Made s t about (first :: uris) (id :: ids) s'' := by
  have hid : s'.key? id = some (t.name, first) := by
    obtain ⟨found, hfound, hkey⟩ := h.exists_of_mem (List.mem_singleton.mpr rfl)
    exact List.mem_singleton.mp hfound ▸ hkey
  constructor
  · rw [List.map_cons, List.map_cons, hrest.keyed id _ hid, hrest.keys]
  · intro other key hkey
    exact hrest.keyed other key (h.keyed other key hkey)
  · intro other e he hne
    have hfirst := h.kept other e he fun uri huri =>
      hne uri (List.mem_singleton.mp huri ▸ List.mem_cons_self)
    exact hrest.kept other e hfirst fun uri huri => hne uri (List.mem_cons_of_mem _ huri)
  · intro uri huri habsent other hother hkey
    rcases List.mem_cons.mp hother with rfl | hother
    · have hown := (hrest.keyed other _ hid).symm.trans hkey
      obtain rfl := (Prod.mk.inj (Option.some.inj hown)).2
      have hfirst := h.fresh first (List.mem_singleton.mpr rfl) habsent other
        (List.mem_singleton.mpr rfl) hid
      refine hrest.kept other _ hfirst fun uri huri heq => hnew ?_
      obtain rfl := (Prod.mk.inj heq).2
      exact huri
    · have hlater := hrest.mem_of_key hother hkey
      have hne : uri ≠ first := fun heq => hnew (heq ▸ hlater)
      refine hrest.fresh uri hlater (h.absent _ habsent ?_) other hother hkey
      intro found hfound heq
      exact hne ((Prod.mk.inj heq).2.trans (List.mem_singleton.mp hfound))
  · intro key habsent hne
    have hfirst := h.absent key habsent fun uri huri =>
      hne uri (List.mem_singleton.mp huri ▸ List.mem_cons_self)
    exact hrest.absent key hfirst fun uri huri => hne uri (List.mem_cons_of_mem _ huri)

/-! ### Step by step -/

theorem key?_refresh (s : Session σ) (id : EntityId) (state : EntityState) (other : EntityId) :
    (s.refresh id state).key? other = s.key? other := by
  obtain ⟨-, hkept⟩ | ⟨e, he, -, hset⟩ := s.refresh_cases id state
  · rw [hkept]
  · have hkey : (e.refresh state).key = e.key := rfl
    rw [hset, key?_setEntity he hkey]

theorem entity?_refresh (s : Session σ) {id other : EntityId} (hne : other ≠ id)
    (state : EntityState) : (s.refresh id state).entity? other = s.entity? other := by
  obtain ⟨-, hkept⟩ | ⟨e, he, -, hset⟩ := s.refresh_cases id state
  · rw [hkept]
  · rw [hset, entity?_setEntity s he, if_neg hne]

/-- A refresh changes nothing but an entity. -/
theorem refresh_eq (s : Session σ) (id : EntityId) (state : EntityState) :
    s.refresh id state = { s with entities := (s.refresh id state).entities } := by
  obtain ⟨-, hkept⟩ | ⟨e, -, -, hset⟩ := s.refresh_cases id state
  · rw [hkept]
  · rw [hset]
    rfl

/-- Where nothing happens to the entities first, what is made behind that is made from here. -/
theorem Quiet.made (hquiet : Quiet s s') (h : Made s' t about uris ids s'') :
    Made s t about uris ids s'' := by
  have hentity : ∀ id, s'.entity? id = s.entity? id := fun id => by
    rw [entity?, hquiet.entities]
    rfl
  have habsent : ∀ key, s.Absent key → s'.Absent key := fun key h id hentry =>
    h id (hquiet.entries _ hentry)
  constructor
  · exact h.keys
  · intro id key hkey
    rw [key?, ← hentity] at hkey
    exact h.keyed id key hkey
  · intro id e he hne
    exact h.kept id e ((hentity id).trans he) hne
  · intro uri huri hfree
    exact h.fresh uri huri (habsent _ hfree)
  · intro key hfree
    exact h.absent key (habsent _ hfree)

/-- The entity that the cache has is taken, whether it is refreshed or not. -/
theorem made_refresh (hkey : s.key? id = some (t.name, uri))
    (hentry : ((t.name, uri), some id) ∈ s.cache.entries) (state : EntityState) :
    Made s t about [uri] [id] (s.refresh id state) := by
  constructor
  · rw [List.map_singleton, List.map_singleton, key?_refresh, hkey]
  · intro other key hother
    rw [key?_refresh, hother]
  · intro other e he hne
    have hother : other ≠ id := by
      rintro rfl
      have hown := (key?_eq he).symm.trans hkey
      exact hne uri (List.mem_singleton.mpr rfl) (Option.some.inj hown)
    rw [entity?_refresh s hother, he]
  · intro found hfound hfree
    obtain rfl := List.mem_singleton.mp hfound
    exact absurd hentry (hfree id)
  · intro key hfree _ other hother
    rw [refresh_eq] at hother
    exact hfree other hother

/-- A new entity is made where the cache has none. -/
theorem made_addEntity (s : Session σ) (t : EntityType) (about : String → List Row)
    (uri : String) :
    Made s t about [uri] [s.entities.length]
      (s.addEntity (.loaded t uri (t.stateIn (about uri)))).2 := by
  have hkey := key?_addEntity s (.loaded t uri (t.stateIn (about uri)))
  have hentity := entity?_addEntity s (.loaded t uri (t.stateIn (about uri)))
  constructor
  · rw [List.map_singleton, List.map_singleton, hkey, if_pos rfl]
    rfl
  · intro other key hother
    rw [hkey, if_neg (Nat.ne_of_lt (lt_of_key? hother)), hother]
  · intro other e he _
    rw [hentity, if_neg (Nat.ne_of_lt (lt_of_entity? he)), he]
  · intro found hfound _ other hother _
    obtain rfl := List.mem_singleton.mp hfound
    obtain rfl := List.mem_singleton.mp hother
    rw [hentity, if_pos rfl]
  · intro key hfree hne other hother
    rcases Cache.mem_put hother with hother | hother
    · exact hfree other hother
    · exact hne uri (List.mem_singleton.mpr rfl) (Prod.mk.inj hother).1

theorem made_instantiate (h : Keyed s) (t : EntityType) (about : String → List Row)
    (uri : String) :
    Made s t about [uri] [(s.instantiate t uri (about uri)).1]
      (s.instantiate t uri (about uri)).2 := by
  apply (quiet_foldl_notify s (t.violationsIn uri (about uri))).made
  have htold : Keyed ((t.violationsIn uri (about uri)).foldl notify s) := by
    rw [foldl_notify]
    exact h.congr rfl rfl (fun _ => rfl) rfl
  have hcache := cache_foldl_notify s (t.violationsIn uri (about uri))
  obtain ⟨id, hpeek, hmade⟩ | ⟨-, hmade⟩ := s.instantiate_cases t uri (about uri)
  · rw [← hcache] at hpeek
    have hentry := mem_cached_of_peek hpeek
    rw [hmade]
    apply (quiet_cached _ t uri).made
    exact made_refresh ((htold.cached_touched t uri).cached _ id hentry) hentry _
  · rw [hmade]
    exact made_addEntity _ t about uri

theorem made_instantiateAll (h : Keyed s) (t : EntityType) (rows : List Row)
    {uris : List String} (hnodup : uris.Nodup) :
    Made s t (t.rowsAbout · rows) uris (s.instantiateAll t rows uris).1
      (s.instantiateAll t rows uris).2 := by
  induction uris generalizing s with
  | nil => exact made_nothing s t _
  | cons uri rest ih =>
      obtain ⟨hnew, hrest⟩ := List.nodup_cons.mp hnodup
      have hfirst := made_instantiate h t (t.rowsAbout · rows) uri
      exact hfirst.cons (ih (h.instantiate t uri (t.rowsAbout uri rows)) hrest) hnew

theorem told_instantiate (s : Session σ) (t : EntityType) (uri : String) (rows : List Row) :
    Told s (t.violationsIn uri rows) (s.instantiate t uri rows).2 := by
  obtain ⟨id, -, hmade⟩ | ⟨-, hmade⟩ := s.instantiate_cases t uri rows
  · rw [hmade, refresh_eq]
    exact ⟨rfl, rfl⟩
  · rw [hmade]
    exact ⟨rfl, rfl⟩

theorem told_instantiateAll (s : Session σ) (t : EntityType) (rows : List Row)
    (uris : List String) :
    Told s (uris.flatMap fun uri => t.violationsIn uri (t.rowsAbout uri rows))
      (s.instantiateAll t rows uris).2 := by
  induction uris generalizing s with
  | nil => exact told_nothing rfl rfl
  | cons uri rest ih =>
      have hfirst := told_instantiate s t uri (t.rowsAbout uri rows)
      rw [List.flatMap_cons]
      exact hfirst.append (ih (s.instantiate t uri (t.rowsAbout uri rows)).2)

variable [GraphStore σ]

/-- A selection that the store answers. -/
theorem exists_loadText (h : Keyed s) (t : EntityType) {text : String}
    {rows : List Row} (hanswer : (GraphStore.query text s.store).1 = .ok rows) :
    ∃ ids s', s.loadText t text = (.ok ids, s') ∧
      Made s t (t.rowsAbout · rows) (t.subjectsIn rows) ids s' ∧
      Told s ((t.subjectsIn rows).flatMap fun uri => t.violationsIn uri (t.rowsAbout uri rows))
        s' := by
  have hnodup : (t.subjectsIn rows).Nodup := Algebra.nodup_distinctNames _
  have hmade := (quiet_ask s text).made (made_instantiateAll (h.ask text) t rows hnodup)
  have htold := told_instantiateAll (s.ask text).2 t rows (t.subjectsIn rows)
  exact ⟨_, _, loadText_ok t hanswer, hmade,
    (told_nothing rfl rfl : Told s [] (s.ask text).2).append htold⟩

/-- A load of an IRI that is not in the cache, whose rows are all about it. -/
theorem exists_load (h : PinsDirty size s) (hnone : (s.cached t uri).1 = none) {iri : Term}
    (hiri : checkIri uri = .ok iri) {rows : List Row}
    (hanswer : (GraphStore.query (t.oneText iri) s.store).1 = .ok rows)
    (habout : ∀ row ∈ rows, t.subjectOf? row = some uri) :
    ∃ found s', s.load t uri = (.ok found, s') ∧ (found = none ↔ rows = []) ∧
      (∀ id, found = some id → s'.entity? id = some (.loaded t uri (t.stateIn rows))) ∧
      Told s (if rows = [] then [] else t.violationsIn uri rows) s' := by
  have hpeek : s.cache.peek (t.name, uri) = none := (Cache.get_fst _ _).symm.trans hnone
  obtain ⟨ids, s', hload, hmade, htold⟩ := exists_loadText h.keyed t hanswer
  have hrows : t.rowsAbout uri rows = rows :=
    List.filter_eq_self.mpr fun row hrow => by simp [habout row hrow]
  have hloaded : s.load t uri = (.ok ids.head?, s') := by
    rw [load_of_absent hpeek hiri, hload]
    rfl
  refine ⟨ids.head?, s', hloaded, ?_⟩
  rw [EntityType.subjectsIn_of_all habout] at hmade htold
  by_cases hempty : rows = []
  · rw [if_pos hempty] at hmade htold ⊢
    have hnil : ids = [] := List.map_eq_nil_iff.mp hmade.keys
    subst hnil
    exact ⟨by simp [hempty], nofun, htold⟩
  · rw [if_neg hempty] at hmade htold ⊢
    obtain ⟨id, rfl⟩ : ∃ id, ids = [id] := by
      have hlength := congrArg List.length hmade.keys
      rw [List.length_map, List.length_map] at hlength
      exact List.length_eq_one_iff.mp hlength
    rw [List.flatMap_singleton, hrows] at htold
    refine ⟨by simp [hempty], fun other hother => ?_, htold⟩
    obtain rfl := Option.some.inj hother
    obtain ⟨found, hfound, hkey⟩ := hmade.exists_of_mem List.mem_cons_self
    obtain rfl := List.mem_singleton.mp hfound
    have hfresh := hmade.fresh uri List.mem_cons_self (h.absent hnone) found hfound hkey
    rwa [hrows] at hfresh

end Session

/-! ### Both loads of one graph -/

/-- A store answers the selection of a text by its solutions in a graph, in whatever order. -/
def Answers {σ : Type} [GraphStore σ] (store : σ) (env : Prologue) (g : Graph) (text : String) :
    Prop :=
  ∀ p names, Query.read env text = some (.select p names) →
    ∃ answer, (GraphStore.query text store).1 = .ok answer ∧ answer.Perm (solutionRows g p names)

theorem MemoryStore.query_eq {m : MemoryStore} {text : String} {p : Algebra} {names : List String}
    (hread : Query.read m.prologue text = some (.select p names)) :
    GraphStore.query text m = (.ok (m.rows p names), m) := by
  have hselect : GraphStore.query text m = (m.select text, m) := rfl
  rw [hselect, MemoryStore.select, hread]

/-- Where a memory finds the solutions, it answers by them. -/
theorem MemoryStore.answers_of_rows {m : MemoryStore} {text : String} {p : Algebra}
    {names : List String} (hread : Query.read m.prologue text = some (.select p names))
    (hrows : m.rows p names = solutionRows m.graph p names) :
    Answers m m.prologue m.graph text := by
  intro q found hq
  obtain ⟨rfl, rfl⟩ := Query.select.inj (Option.some.inj (hq.symm.trans hread))
  exact ⟨m.rows q found, by rw [query_eq hread], hrows ▸ List.Perm.refl _⟩

namespace EntityType

/-- The texts of a type are read as they are meant: that of all entities as the selection that the
type was made of, and that of one entity with this selection nested in it. -/
structure ReadAs (t : EntityType) (env : Prologue) (uri : String) (p : Algebra) : Prop where
  pattern : t.query.pattern = .ofAlgebra p
  all : Query.read env t.allText = some (.select p t.query.projected)
  one : Query.read env (t.oneText (.iri uri)) = some (p.about t.anchor uri)

/-- What a type is made of projects its anchor and its properties, and could be analysed. -/
theorem analysed_of_ofQuery {name : String} {q : SelectQuery} {anchor : Option String}
    {namespaceIri : String} {hints : SchemaHints} {overrides : List (String × Override)}
    {t : EntityType} (h : ofQuery name q anchor namespaceIri hints overrides = .ok t) :
    t.query = q ∧ t.anchor ∈ q.projected ∧ (∀ p ∈ t.properties, p.name ∈ q.projected) ∧
      ∃ visits, Visit.all q.pattern = .ok visits := by
  obtain ⟨chosen, analysis, described, hanalysis, hnames, rfl⟩ := ofQuery_ok h
  obtain ⟨visits, hmade⟩ := Analysis.exists_madeOf hanalysis
  refine ⟨rfl, hmade.projected, fun p hp => ?_, visits, hmade.walk⟩
  obtain ⟨⟨n, v⟩, hmem, rfl⟩ := List.mem_map.mp hp
  have hname : n ∈ described.map Prod.fst := List.mem_map.mpr ⟨_, hmem, rfl⟩
  rw [hnames, Analysis.targets, Algebra.mem_distinctNames] at hname
  exact (List.mem_filter.mp hname).1

/-- Where the anchor is in some triple outside the optional parts, every solution binds it. -/
theorem binds_anchor {name : String} {q : SelectQuery} {anchor : Option String}
    {namespaceIri : String} {hints : SchemaHints} {overrides : List (String × Override)}
    {t : EntityType} (h : ofQuery name q anchor namespaceIri hints overrides = .ok t)
    (hrequires : t.query.pattern.Requires t.anchor) {env : Prologue} {uri : String} {p : Algebra}
    (hread : t.ReadAs env uri p) (g : Graph) :
    ∀ s ∈ p.solutions g, s.binds t.anchor = true := by
  obtain ⟨rfl, hprojected, -, visits, hvisits⟩ := analysed_of_ofQuery h
  obtain ⟨next, hwalk⟩ := Visit.all_ok hvisits
  rw [hread.pattern] at hwalk hrequires
  intro s hs
  have hkeeps := Query.keepsProjected_of_read hread.all t.anchor hprojected
  exact Algebra.binds_of_requires hkeeps hwalk hrequires (Algebra.admits_of_mem_solutions hs)

section Answers

variable {σ : Type} [GraphStore σ] {t : EntityType} {env : Prologue} {g : Graph} {uri : String}
  {p : Algebra} {store : σ}

/-- The rows about one IRI have the terms of the solutions about it. -/
theorem ReadAs.exists_one (hread : t.ReadAs env uri p)
    (hstore : Answers store env g (t.oneText (.iri uri)))
    (hanchor : t.anchor ∈ t.query.projected)
    (hbinds : ∀ s ∈ p.solutions g, s.binds t.anchor = true) :
    ∃ rows, (GraphStore.query (t.oneText (.iri uri)) store).1 = .ok rows ∧
      ∀ n ∈ t.query.projected, (rows.map (·.term? n)).Perm
        ((p.solutionsAbout g t.anchor uri).map (·.term? n)) := by
  have hmentioned := Query.mentioned_of_read hread.all
  obtain ⟨rows, hanswer, hperm⟩ := hstore _ _ hread.one
  refine ⟨rows, hanswer, fun n hn => ?_⟩
  have hterms := terms_solutionRows_about uri hbinds (hmentioned ▸ hanchor)
    (hmentioned ▸ hn)
  exact hterms ▸ hperm.map _

/-- So have the rows of all entities that are about the IRI. -/
theorem ReadAs.exists_all (hread : t.ReadAs env uri p) (hstore : Answers store env g t.allText)
    (hanchor : t.anchor ∈ t.query.projected) :
    ∃ rows, (GraphStore.query t.allText store).1 = .ok rows ∧
      ∀ n ∈ t.query.projected, ((t.rowsAbout uri rows).map (·.term? n)).Perm
        ((p.solutionsAbout g t.anchor uri).map (·.term? n)) := by
  obtain ⟨rows, hanswer, hperm⟩ := hstore _ _ hread.all
  refine ⟨rows, hanswer, fun n hn => ?_⟩
  have hterms : (t.rowsAbout uri (solutionRows g p _)).map (·.term? n) = _ :=
    EntityType.terms_rowsAbout t uri hanchor hn
  exact hterms ▸ (hperm.filter _).map _

variable {rows : List Row} {n : String}

/-- A row with the terms of solutions has those of one of them. -/
theorem exists_solution (h : (rows.map (·.term? n)).Perm
    ((p.solutionsAbout g t.anchor uri).map (·.term? n))) {row : Row} (hrow : row ∈ rows) :
    ∃ s ∈ p.solutionsAbout g t.anchor uri, s.term? n = row.term? n :=
  List.mem_map.mp (h.mem_iff.mp (List.mem_map.mpr ⟨row, hrow, rfl⟩))

theorem subjectOf?_of_terms (h : (rows.map (·.term? t.anchor)).Perm
    ((p.solutionsAbout g t.anchor uri).map (·.term? t.anchor))) :
    ∀ row ∈ rows, t.subjectOf? row = some uri := by
  intro row hrow
  obtain ⟨s, hs, hterm⟩ := exists_solution h hrow
  exact subjectOf?_eq_some.mpr (hterm ▸ (Algebra.mem_solutionsAbout.mp hs).2)

theorem length_valuesIn_of_oneTerm {property : Property}
    (h : (rows.map (·.term? property.name)).Perm
      ((p.solutionsAbout g t.anchor uri).map (·.term? property.name)))
    (hone : p.OneTerm g t.anchor uri property.name) :
    (property.valuesIn rows).length ≤ 1 := by
  apply Property.length_valuesIn_le_one
  intro row hrow other hother a b ha hb
  obtain ⟨s, hs, hterm⟩ := exists_solution h hrow
  obtain ⟨s', hs', hterm'⟩ := exists_solution h hother
  exact hone s hs s' hs' a b (hterm.trans ha) (hterm'.trans hb)

end Answers

end EntityType

namespace Session

variable {σ : Type} [GraphStore σ]

/-- What a load of one IRI finds, beside what a load of all entities finds: the entity of the IRI,
if it is among them, with the same terms, as far as the solutions leave no choice, and the same
violations of it. -/
structure Agree (t : EntityType) (uri : String) (p : Algebra) (g : Graph) (s s' : Session σ)
    (found : Option EntityId) (one : Session σ) (ids : List EntityId) (all : Session σ) :
    Prop where
  known : ∀ id ∈ ids, ∃ e, all.entity? id = some e
  found_iff : found = none ↔ ∀ id ∈ ids, ∀ e, all.entity? id = some e → e.uri ≠ uri
  terms : ∀ id, found = some id → ∃ e, one.entity? id = some e ∧ e.uri = uri ∧
    ∀ other ∈ ids, ∀ e', all.entity? other = some e' → e'.uri = uri →
      ∀ property ∈ t.properties,
        property.isFunctional = false ∨ p.OneTerm g t.anchor uri property.name →
        ∀ o : Term, o.memberOf (e.values.terms property.name) =
          o.memberOf (e'.values.terms property.name)
  told : ∃ told told', Told s told one ∧ Told s' told' all ∧
    told = told'.filter fun v => v.entityUri = uri

/-- Whatever was done with two sessions whose stores answer by the solutions in the same graph, an
IRI that neither of them has in its cache is loaded by itself exactly if it is among all entities.
Both loads then give the same terms for every property, a property of a single value apart for which
the solutions have several, and they tell the same violations of the entity. -/
theorem load_agrees_loadAll {name : String} {q : SelectQuery} {anchor : Option String}
    {namespaceIri : String} {hints : SchemaHints} {overrides : List (String × Override)}
    {t : EntityType}
    (ht : EntityType.ofQuery name q anchor namespaceIri hints overrides = .ok t)
    (hrequires : t.query.pattern.Requires t.anchor) {uri : String} {iri : Term}
    (hiri : checkIri uri = .ok iri) {env : Prologue} {p : Algebra} (hread : t.ReadAs env uri p)
    (g : Graph)
    (store store' : σ) (suffixes suffixes' : Suffixes) (size size' : Nat)
    (calls calls' : List (Call σ)) :
    let s := Call.runAll (.ofStore store suffixes size) calls
    let s' := Call.runAll (.ofStore store' suffixes' size') calls'
    Answers s.store env g (t.oneText iri) → Answers s'.store env g t.allText →
    (s.cached t uri).1 = none → (s'.cached t uri).1 = none →
    ∃ found one ids all,
      s.load t uri = (.ok found, one) ∧ s'.loadAll t = (.ok ids, all) ∧
      Agree t uri p g s s' found one ids all := by
  intro s s' hstore hstore' hnone hnone'
  have hs : PinsDirty size s := pinsDirty_runAll (pinsDirty_ofStore store suffixes size) calls
  have hs' : PinsDirty size' s' :=
    pinsDirty_runAll (pinsDirty_ofStore store' suffixes' size') calls'
  obtain ⟨rfl, -⟩ := checkIri_ok hiri
  obtain ⟨hquery, hanchor, hproperties, -⟩ := EntityType.analysed_of_ofQuery ht
  rw [← hquery] at hanchor hproperties
  have hbinds := EntityType.binds_anchor ht hrequires hread g
  have hnames := (EntityType.regular_of_ofQuery ht).names_nodup
  obtain ⟨oneRows, honeAnswer, hone⟩ := hread.exists_one hstore hanchor hbinds
  obtain ⟨allRows, hallAnswer, hall⟩ := hread.exists_all hstore' hanchor
  have halike : ∀ property ∈ t.properties, property.Alike oneRows (t.rowsAbout uri allRows) :=
    fun property hproperty => (hone _ (hproperties property hproperty)).trans
      (hall _ (hproperties property hproperty)).symm
  have hempty : oneRows = [] ↔ uri ∉ t.subjectsIn allRows := by
    have hlength := ((hone _ hanchor).trans (hall _ hanchor).symm).length_eq
    rw [List.length_map, List.length_map] at hlength
    rw [EntityType.mem_subjectsIn, not_not, ← List.length_eq_zero_iff, hlength,
      List.length_eq_zero_iff]
  obtain ⟨found, one, hload, hfound, hentity, htold⟩ :=
    exists_load hs hnone hiri honeAnswer (EntityType.subjectOf?_of_terms (hone _ hanchor))
  obtain ⟨ids, all, hloadAll, hmade, htoldAll⟩ := exists_loadText hs'.keyed t hallAnswer
  -- an entity among all entities has the IRI of its rows
  have hkey : ∀ id ∈ ids, ∀ e, all.entity? id = some e →
      all.key? id = some (t.name, e.uri) ∧ e.uri ∈ t.subjectsIn allRows := by
    intro id hid e he
    obtain ⟨u, hu, hkey⟩ := hmade.exists_key hid
    have hown := Option.some.inj ((key?_eq he).symm.trans hkey)
    obtain rfl : e.uri = u := (Prod.mk.inj hown).2
    exact ⟨hkey, hu⟩
  refine ⟨found, one, ids, all, hload, hloadAll, ?_, ?_, ?_, _, _, htold, htoldAll, ?_⟩
  · intro id hid
    obtain ⟨u, -, hkey⟩ := hmade.exists_key hid
    exact exists_entity? (lt_of_key? hkey)
  · rw [hfound, hempty]
    constructor
    · rintro hnew id hid e he rfl
      exact hnew (hkey id hid e he).2
    · intro hnew hmem
      obtain ⟨id, hid, hown⟩ := hmade.exists_of_mem hmem
      obtain ⟨e, he⟩ := exists_entity? (lt_of_key? hown)
      have huri := Option.some.inj ((key?_eq he).symm.trans hown)
      exact hnew id hid e he (Prod.mk.inj huri).2
  · intro id hid
    refine ⟨_, hentity id hid, rfl, fun other hother e' he' huri property hproperty honly o => ?_⟩
    obtain ⟨hown, hmem⟩ := hkey other hother e' he'
    rw [huri] at hown hmem
    have hfresh := hmade.fresh uri hmem (hs'.absent hnone') other hother hown
    obtain rfl := Option.some.inj (he'.symm.trans hfresh)
    have hterms : ∀ rows, (Entity.loaded t uri (t.stateIn rows)).values.terms property.name =
        (property.stateIn rows).terms := fun rows =>
      EntityType.terms_stateIn hnames hproperty
    rw [hterms, hterms]
    refine (halike property hproperty).memberOf_stateIn (honly.imp_right fun h => ?_) o
    exact EntityType.length_valuesIn_of_oneTerm (hone _ (hproperties property hproperty)) h
  · have hnodup : (t.subjectsIn allRows).Nodup := Algebra.nodup_distinctNames _
    rw [EntityType.filter_violationsIn t _ uri hnodup]
    by_cases hmem : uri ∈ t.subjectsIn allRows
    · rw [if_pos hmem, if_neg fun h => hempty.mp h hmem]
      exact EntityType.violationsIn_alike halike uri
    · rw [if_neg hmem, if_pos (hempty.mpr hmem)]

/-! Notes with titles, one of them with two. -/

def titledText : String :=
  "SELECT ?note ?title WHERE \x7b ?note <http://e/title> ?title \x7d"

def titledPattern : Algebra :=
  .project (.bgp [.plain (.var "note") (.iri "http://e/title") (.var "title")]) ["note", "title"]

def titledType : EntityType where
  name := "Note"
  query := ⟨titledText, "", titledText, ["note", "title"], .ofAlgebra titledPattern⟩
  anchor := "note"
  namespaceIri := "http://e/"
  properties := [⟨"title", .literal, .one, some "http://e/title", "Literal"⟩]
  synthesis := ⟨"note", [("title", ⟨true, false, "Literal", false, some "http://e/title"⟩)]⟩

def titledStore : MemoryStore :=
  { MemoryStore.empty with graph :=
    [.stating "http://e/n1" "http://e/title" (.literal (.plain "a")),
      .stating "http://e/n2" "http://e/title" (.literal (.plain "b")),
      .stating "http://e/n1" "http://e/title" (.literal (.plain "c"))] }

theorem readAs_titled : titledType.ReadAs titledStore.prologue "http://e/n1" titledPattern where
  pattern := rfl
  all := by cbv
  one := by cbv

theorem answers_titled (text : String) {p : Algebra} {names : List String}
    (hread : Query.read titledStore.prologue text = some (.select p names))
    (hrows : titledStore.rows p names = solutionRows titledStore.graph p names) :
    Answers titledStore titledStore.prologue titledStore.graph text :=
  MemoryStore.answers_of_rows hread hrows

theorem load_agrees_loadAll_titled :
    titledType.ReadAs titledStore.prologue "http://e/n1" titledPattern ∧
    ∃ found one ids all,
      (ofStore titledStore (.ofSequence toString) 1).load titledType "http://e/n1" =
        (.ok found, one) ∧
      (ofStore titledStore (.ofSequence toString) 1).loadAll titledType = (.ok ids, all) ∧
      Agree titledType "http://e/n1" titledPattern titledStore.graph
        (ofStore titledStore (.ofSequence toString) 1)
        (ofStore titledStore (.ofSequence toString) 1) found one ids all := by
  have hmade : EntityType.ofQuery "Note" titledType.query none "http://e/" .none [] =
      .ok titledType := rfl
  have hrequires : titledType.query.pattern.Requires titledType.anchor :=
    ⟨_, List.mem_cons_self, Or.inl rfl⟩
  have hiri : checkIri "http://e/n1" = .ok (.iri "http://e/n1") := rfl
  exact ⟨readAs_titled, load_agrees_loadAll hmade hrequires hiri readAs_titled titledStore.graph
    titledStore titledStore (.ofSequence toString) (.ofSequence toString) 1 1 [] []
    (answers_titled _ readAs_titled.one rfl) (answers_titled _ readAs_titled.all rfl) rfl rfl⟩

end Session

end EntityMapping
