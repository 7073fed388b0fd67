import EntityMapping.Proofs.Session.Lookup

/-!
What a load of selected entities gives them.

A condition chooses among solutions, and an entity is put together from those of its solutions that
were chosen.  So it gets the terms of these solutions, and all of its terms exactly if none of them
is in rejected solutions only.  An entity that was in the cache without changes of its own is
refreshed in this way too, and so is what it is rolled back to.
-/

namespace EntityMapping

open Sparql (Algebra Expr Prologue Query Solution)

namespace Sparql

namespace Expr

/-- Whether a solution is among those that a group with this condition selects. -/
def chooses (e : Expr) (s : Solution) : Bool :=
  (groupCondition [e]).all (·.holdsIn s)

theorem evaluate_equal (name : String) (l : Literal) (s : Solution) :
    (call "=" [.term (.var name), .term (.literal l)]).evaluate s =
      (s.term? name).bind fun t => (t.equalValue? (.literal l)).map ofBool := by
  rw [evaluate, evaluateCall.eq_def]
  simp only [evaluateAll, evaluate]
  cases s.term? name <;> simp [compared?]

/-- A name equals a literal where it is bound to a term of an equal value. -/
theorem holdsIn_equal (name : String) (l : Literal) (s : Solution) :
    (call "=" [.term (.var name), .term (.literal l)]).holdsIn s =
      ((s.term? name).bind fun t => t.equalValue? (.literal l)).any id := by
  have htruth : ∀ b, truth? (ofBool b) = some b := by decide +kernel
  rw [holdsIn, evaluate_equal]
  cases s.term? name with
  | none => rfl
  | some t =>
      rw [Option.bind_some, Option.bind_some]
      rcases t.equalValue? (.literal l) with _ | _ | _ <;> simp [htruth]

end Expr

namespace Algebra

variable {p : Algebra} {e : Expr} {g : Graph}

/-- A nested selection under a condition. -/
def restricted (p : Algebra) (e : Expr) : Algebra :=
  filtered (Expr.groupCondition [e]) (.subSelect p)

/-- A selection of everything that a nested selection says where a condition holds. -/
def chosen (p : Algebra) (e : Expr) : Query :=
  let names := distinctNames (p.restricted e).mentioned
  .select (.project (p.restricted e) names) names

theorem solutions_restricted (p : Algebra) (e : Expr) (g : Graph) :
    (p.restricted e).solutions g = (p.solutions g).filter e.chooses := by
  unfold restricted Expr.chooses
  cases Expr.groupCondition [e] with
  | none => simp [filtered, solutions]
  | some condition => simp [filtered, solutions]

theorem mem_restricted {name : String} (h : name ∈ p.mentioned) :
    name ∈ distinctNames (p.restricted e).mentioned := by
  rw [mem_distinctNames]
  unfold restricted
  cases Expr.groupCondition [e] with
  | none => exact h
  | some condition => exact List.mem_append_left _ h

end Algebra

/-- Some of the solutions have a term for a name. -/
def Occurs (found : List Solution) (name : String) (o : Term) : Prop :=
  ∃ s ∈ found, ∃ t, s.term? name = some t ∧ o.same t = true

end Sparql

open Sparql (Occurs)

/-! ### Rows of chosen solutions -/

section Rows

variable {t : EntityType} {names : List String} {found : List Solution} {uri : String}

/-- What is projected shows in the row of a solution as it is in the solution. -/
theorem rowsOf_restrict (names : List String) (found : List Solution) :
    rowsOf names (found.map (·.restrict names)) = rowsOf names found := by
  have hbinds : ∀ s : Solution, names.any (s.restrict names).binds = names.any s.binds := by
    intro s
    rw [Bool.eq_iff_iff, List.any_eq_true, List.any_eq_true]
    refine exists_congr fun n => and_congr_right fun hn => ?_
    rw [Solution.binds, Solution.term?_restrict, if_pos hn, Solution.binds]
  have hrow : ∀ s : Solution, MemoryStore.row names (s.restrict names) = MemoryStore.row names s := by
    intro s
    refine List.map_congr_left fun n hn => ?_
    rw [Solution.term?_restrict, if_pos (Algebra.mem_distinctNames.mp hn)]
  rw [rowsOf, List.filter_map, List.map_map, rowsOf]
  simp only [Function.comp_def, hbinds, hrow]

/-- The terms that the state of a property of many takes from rows are those that occur in their
solutions. -/
theorem Property.memberOf_stateIn_iff {property : Property} {rows : List Row}
    (hmany : property.isFunctional = false) (hname : property.name ∈ names)
    (hrows : rows.Perm (found.map (MemoryStore.row names))) (o : Term) :
    o.memberOf (property.stateIn rows).terms = true ↔ Occurs found property.name o := by
  have hterms : ∀ s : Solution, (MemoryStore.row names s).term? property.name =
      s.term? property.name := fun s => by rw [MemoryStore.term?_row, if_pos hname]
  rw [Property.terms_stateIn (Or.inl hmany), Property.memberOf_valuesIn,
    Term.memberOf_perm (hrows.filterMap _), Term.memberOf_iff, List.filterMap_map]
  simp only [Function.comp_def, hterms, List.mem_filterMap]
  constructor
  · rintro ⟨u, ⟨s, hs, hterm⟩, hsame⟩
    exact ⟨s, hs, u, hterm, hsame⟩
  · rintro ⟨s, hs, u, hterm, hsame⟩
    exact ⟨u, ⟨s, hs, hterm⟩, hsame⟩

end Rows

namespace Session

variable {σ : Type} {s s' : Session σ} {size : Nat} {id : EntityId} {t : EntityType}
  {uri : String} {state : EntityState}

/-! ### Entities without changes of their own -/

/-- An entity has a state, and it is what the store is believed to hold. -/
def HasState (s : Session σ) (id : EntityId) (state : EntityState) : Prop :=
  ∃ e, s.entity? id = some e ∧ e.values = state ∧ e.committed = state

theorem hasState_refresh (hclean : id ∉ s.dirty) (hknown : id < s.entities.length)
    (state : EntityState) : (s.refresh id state).HasState id state := by
  obtain ⟨hdirty | hnone, -⟩ | ⟨e, he, -, hset⟩ := s.refresh_cases id state
  · exact absurd hdirty hclean
  · exact absurd hknown (Nat.not_lt.mpr (entity?_eq_none.mp hnone))
  · rw [hset]
    exact ⟨_, (entity?_setEntity s he _ id).trans (if_pos rfl), rfl, rfl⟩

theorem hasState_addEntity (s : Session σ) (t : EntityType) (uri : String)
    (state : EntityState) :
    (s.addEntity (.loaded t uri state)).2.HasState s.entities.length state :=
  ⟨_, (entity?_addEntity s _ _).trans (if_pos rfl), rfl, rfl⟩

/-- The entity of rows has the state that they give, unless it has changes of its own. -/
theorem hasState_instantiate (h : Keyed s) (t : EntityType) (uri : String)
    (rows : List Row) :
    (s.instantiate t uri rows).2.dirty = s.dirty ∧
      (s.isDirty (s.instantiate t uri rows).1 = false →
        (s.instantiate t uri rows).2.HasState (s.instantiate t uri rows).1 (t.stateIn rows)) := by
  refine ⟨(loads_instantiate s t uri rows).records_nothing.2.1, fun hclean => ?_⟩
  have htold := (quiet_foldl_notify s (t.violationsIn uri rows))
  obtain ⟨id, hpeek, hmade⟩ | ⟨-, hmade⟩ := s.instantiate_cases t uri rows
  · rw [hmade] at hclean ⊢
    refine hasState_refresh ?_ ?_ _
    · have hdirty : (((t.violationsIn uri rows).foldl notify s).cached t uri).2.dirty = s.dirty :=
        htold.dirty
      rw [hdirty]
      simpa [isDirty] using hclean
    · have hentities : (((t.violationsIn uri rows).foldl notify s).cached t uri).2.entities =
          s.entities := htold.entities
      rw [hentities]
      exact lt_of_key? (h.cached _ id (Cache.mem_of_peek hpeek))
  · rw [hmade]
    exact hasState_addEntity _ t uri _

/-- So it is with the entities of several IRIs: each has the state that its own rows give. -/
theorem hasState_instantiateAll (h : Keyed s) (t : EntityType) (rows : List Row)
    {uris : List String} (hnodup : uris.Nodup) :
    ∀ id ∈ (s.instantiateAll t rows uris).1, s.isDirty id = false → ∀ uri,
      (s.instantiateAll t rows uris).2.key? id = some (t.name, uri) →
      (s.instantiateAll t rows uris).2.HasState id (t.stateIn (t.rowsAbout uri rows)) := by
  induction uris generalizing s with
  | nil => exact fun id hid => absurd hid List.not_mem_nil
  | cons first rest ih =>
      obtain ⟨hnew, hrest⟩ := List.nodup_cons.mp hnodup
      have hpins := h.instantiate t first (t.rowsAbout first rows)
      obtain ⟨hdirty, hstate⟩ := hasState_instantiate h t first (t.rowsAbout first rows)
      have hfirst := made_instantiate h t (t.rowsAbout · rows) first
      have hmade := made_instantiateAll hpins t rows hrest
      have hbehind := ih hpins hrest
      unfold instantiateAll
      dsimp only
      generalize s.instantiate t first (t.rowsAbout first rows) = made at *
      obtain ⟨id, s₁⟩ := made
      intro other hother hclean uri hkey
      rcases List.mem_cons.mp hother with rfl | hother
      · -- what is made behind the first entity is of other IRIs and leaves it alone
        obtain ⟨e, he, hvalues, hcommitted⟩ := hstate hclean
        obtain ⟨found, hfound, hown⟩ := hfirst.exists_of_mem (List.mem_singleton.mpr rfl)
        obtain rfl := List.mem_singleton.mp hfound
        have hkeyed := hmade.keyed found _ hown
        obtain rfl := (Prod.mk.inj (Option.some.inj (hkeyed.symm.trans hkey))).2
        refine ⟨e, hmade.kept found e he fun u hu heq => hnew ?_, hvalues, hcommitted⟩
        have hefirst := Option.some.inj ((key?_eq he).symm.trans hown)
        obtain rfl := (Prod.mk.inj (hefirst.symm.trans heq)).2
        exact hu
      · rw [isDirty, ← hdirty] at hclean
        exact hbehind other hother hclean uri hkey

theorem store_instantiate (s : Session σ) (t : EntityType) (uri : String) (rows : List Row) :
    (s.instantiate t uri rows).2.store = s.store := by
  have htold : ((t.violationsIn uri rows).foldl notify s).store = s.store := by rw [foldl_notify]
  obtain ⟨id, -, hmade⟩ | ⟨-, hmade⟩ := s.instantiate_cases t uri rows
  · rw [hmade, refresh_eq]
    exact htold
  · rw [hmade]
    exact htold

theorem store_instantiateAll (s : Session σ) (t : EntityType) (rows : List Row)
    (uris : List String) : (s.instantiateAll t rows uris).2.store = s.store := by
  induction uris generalizing s with
  | nil => rfl
  | cons uri rest ih => exact (ih _).trans (store_instantiate s t uri _)

variable [GraphStore σ]

/-- A load of rows that the store gives, where asking leaves the store as it was. -/
theorem loadText_eq {text : String} {rows : List Row}
    (h : GraphStore.query text s.store = (.ok rows, s.store)) :
    s.loadText t text = (.ok (s.ofRows t rows).1, (s.ofRows t rows).2) := by
  have hask : s.ask text = (.ok rows, s) := by rw [ask, h]
  rw [loadText, hask]

theorem hasState_loadText (h : Keyed s) {text : String} {rows : List Row}
    (hanswer : (GraphStore.query text s.store).1 = .ok rows) {ids : List EntityId}
    (hload : s.loadText t text = (.ok ids, s')) :
    ∀ id ∈ ids, s.isDirty id = false → ∀ uri, s'.key? id = some (t.name, uri) →
      s'.HasState id (t.stateIn (t.rowsAbout uri rows)) := by
  have hnodup : (t.subjectsIn rows).Nodup := Algebra.nodup_distinctNames _
  have hstate := hasState_instantiateAll (h.ask text) t rows hnodup
  rw [loadText_ok t hanswer] at hload
  obtain ⟨hids, rfl⟩ := Prod.mk.inj hload
  obtain rfl := Except.ok.inj hids
  exact hstate

end Session

/-! ### Loads of chosen solutions -/

/-- A store answers the selection of a text by those solutions of a pattern in a graph that are
chosen, in whatever order. -/
def AnswersWhere {σ : Type} [GraphStore σ] (store : σ) (env : Prologue) (g : Graph) (p : Algebra)
    (holds : Solution → Bool) (text : String) : Prop :=
  ∀ q names, Query.read env text = some (.select q names) →
    ∃ answer, (GraphStore.query text store).1 = .ok answer ∧
      answer.Perm (rowsOf names ((p.solutions g).filter holds))

section Answers

variable {σ : Type} [GraphStore σ] {store : σ} {env : Prologue} {g : Graph} {text : String}
  {p : Algebra} {e : Expr} {names : List String}

theorem Answers.all (h : Answers store env g text)
    (hread : Query.read env text = some (.select p names)) :
    AnswersWhere store env g p (fun _ => true) text := by
  intro q found hfound
  obtain ⟨rfl, rfl⟩ := Query.select.inj (Option.some.inj (hread.symm.trans hfound))
  obtain ⟨answer, hanswer, hperm⟩ := h _ _ hread
  refine ⟨answer, hanswer, ?_⟩
  rwa [List.filter_true]

/-- A store that answers by the solutions as they are defined chooses those in which the condition
holds. -/
theorem Answers.chosen (h : Answers store env g text)
    (hread : Query.read env text = some (p.chosen e)) :
    AnswersWhere store env g p e.chooses text := by
  intro q found hfound
  obtain ⟨rfl, rfl⟩ := Query.select.inj (Option.some.inj (hread.symm.trans hfound))
  obtain ⟨answer, hanswer, hperm⟩ := h _ _ hread
  refine ⟨answer, hanswer, ?_⟩
  rwa [solutionRows, Algebra.solutions, rowsOf_restrict, Algebra.solutions_restricted] at hperm

end Answers

namespace Session

variable {σ : Type}

/-- What a load of the solutions that are chosen leaves behind: the entities of the IRIs that some
of these solutions are about, where an entity without changes of its own has, for each property of
many, the terms of the chosen solutions about it, also in what it is rolled back to. -/
structure Selected (t : EntityType) (p : Algebra) (g : Graph) (holds : Solution → Bool)
    (s : Session σ) (ids : List EntityId) (s' : Session σ) : Prop where
  known : ∀ id ∈ ids, ∃ e, s'.entity? id = some e ∧ e.type.name = t.name
  found_iff : ∀ uri, (∃ id ∈ ids, ∃ e, s'.entity? id = some e ∧ e.uri = uri) ↔
    ∃ solution ∈ p.solutionsAbout g t.anchor uri, holds solution = true
  terms : ∀ id ∈ ids, s.isDirty id = false → ∀ e, s'.entity? id = some e →
    ∀ property ∈ t.properties, property.isFunctional = false → ∀ o : Term,
      (o.memberOf (e.values.terms property.name) = true ↔
        Occurs ((p.solutionsAbout g t.anchor e.uri).filter holds) property.name o) ∧
      (o.memberOf (e.committed.terms property.name) = true ↔
        Occurs ((p.solutionsAbout g t.anchor e.uri).filter holds) property.name o)

variable [GraphStore σ] {s : Session σ} {size : Nat} {t : EntityType}

theorem exists_selected (h : PinsDirty size s) {env : Prologue} {p q : Algebra} {g : Graph}
    {holds : Solution → Bool} {names : List String} {text : String}
    (hanswers : AnswersWhere s.store env g p holds text)
    (hread : Query.read env text = some (.select q names)) (hanchor : t.anchor ∈ names)
    (hproperties : ∀ property ∈ t.properties, property.name ∈ names)
    (hnodup : (t.properties.map Property.name).Nodup) :
    ∃ ids s', s.loadText t text = (.ok ids, s') ∧ Selected t p g holds s ids s' := by
  obtain ⟨rows, hanswer, hperm⟩ := hanswers q names hread
  obtain ⟨ids, s', hload, hmade, -⟩ := exists_loadText h.keyed t hanswer
  have hstate := hasState_loadText h.keyed hanswer hload
  have habout : ∀ uri, (t.rowsAbout uri rows).Perm
      (((p.solutionsAbout g t.anchor uri).filter holds).map (MemoryStore.row names)) := by
    intro uri
    have hfilter := hperm.filter fun row => t.subjectOf? row == some uri
    refine hfilter.trans (List.Perm.of_eq ?_)
    rw [Algebra.solutionsAbout, List.filter_comm]
    exact EntityType.rowsAbout_rowsOf hanchor
  have hkey : ∀ id ∈ ids, ∀ e, s'.entity? id = some e →
      s'.key? id = some (t.name, e.uri) ∧ e.uri ∈ t.subjectsIn rows := by
    intro id hid e he
    obtain ⟨u, hu, hkey⟩ := hmade.exists_key hid
    have hown := Option.some.inj ((key?_eq he).symm.trans hkey)
    obtain rfl : e.uri = u := (Prod.mk.inj hown).2
    exact ⟨hkey, hu⟩
  refine ⟨ids, s', hload, ?_, ?_, ?_⟩
  · intro id hid
    obtain ⟨u, -, hown⟩ := hmade.exists_key hid
    obtain ⟨e, he⟩ := exists_entity? (lt_of_key? hown)
    exact ⟨e, he, (Prod.mk.inj (Option.some.inj ((key?_eq he).symm.trans hown))).1⟩
  · intro uri
    have hsome : uri ∈ t.subjectsIn rows ↔
        ∃ solution ∈ p.solutionsAbout g t.anchor uri, holds solution = true := by
      rw [EntityType.mem_subjectsIn, Ne, ← List.length_eq_zero_iff, (habout uri).length_eq,
        List.length_map, List.length_eq_zero_iff, List.filter_eq_nil_iff]
      simp
    rw [← hsome]
    constructor
    · rintro ⟨id, hid, e, he, rfl⟩
      exact (hkey id hid e he).2
    · intro hmem
      obtain ⟨id, hid, hown⟩ := hmade.exists_of_mem hmem
      obtain ⟨e, he⟩ := exists_entity? (lt_of_key? hown)
      have huri := Option.some.inj ((key?_eq he).symm.trans hown)
      exact ⟨id, hid, e, he, (Prod.mk.inj huri).2⟩
  · intro id hid hclean e he property hproperty hmany o
    obtain ⟨hown, -⟩ := hkey id hid e he
    obtain ⟨found, hfound, hvalues, hcommitted⟩ := hstate id hid hclean e.uri hown
    obtain rfl := Option.some.inj (he.symm.trans hfound)
    have hiff := Property.memberOf_stateIn_iff hmany (hproperties property hproperty)
      (habout e.uri) o
    rw [hvalues, hcommitted, EntityType.terms_stateIn hnodup hproperty]
    exact ⟨hiff, hiff⟩

/-- Whatever was done with two sessions whose stores answer from the same graph, a load of the
entities that satisfy a condition gives those that some chosen solution is about, with the terms of
the chosen solutions for each property of many.  An entity gets all the terms that a load of all
entities gives it exactly if each of them is in some chosen solution about it. -/
theorem loadSelected_complete_iff {name : String} {q : SelectQuery} {anchor : Option String}
    {namespaceIri : String} {hints : SchemaHints} {overrides : List (String × Override)}
    (ht : EntityType.ofQuery name q anchor namespaceIri hints overrides = .ok t)
    {env : Prologue} {p : Algebra}
    (hall : Query.read env t.allText = some (.select p t.query.projected))
    {condition : String} {e : Expr}
    (hchosen : Query.read env (t.selectedText condition) = some (p.chosen e)) (g : Graph)
    (holds : Solution → Bool) (store store' : σ) (suffixes suffixes' : Suffixes)
    (size size' : Nat) (calls calls' : List (Call σ)) :
    let s := Call.runAll (.ofStore store suffixes size) calls
    let s' := Call.runAll (.ofStore store' suffixes' size') calls'
    AnswersWhere s.store env g p holds (t.selectedText condition) →
    AnswersWhere s'.store env g p (fun _ => true) t.allText →
    ∃ ids selected ids' all,
      s.loadSelected t condition = (.ok ids, selected) ∧ s'.loadAll t = (.ok ids', all) ∧
      Selected t p g holds s ids selected ∧ Selected t p g (fun _ => true) s' ids' all ∧
      ∀ id ∈ ids, s.isDirty id = false → ∀ e, selected.entity? id = some e →
        ∀ id' ∈ ids', s'.isDirty id' = false → ∀ e', all.entity? id' = some e' → e'.uri = e.uri →
          ∀ property ∈ t.properties, property.isFunctional = false →
            ((∀ o : Term, o.memberOf (e.values.terms property.name) =
                o.memberOf (e'.values.terms property.name)) ↔
              ∀ o : Term, Occurs (p.solutionsAbout g t.anchor e.uri) property.name o →
                Occurs ((p.solutionsAbout g t.anchor e.uri).filter holds) property.name o) := by
  intro s s' hstore hstore'
  have hs : PinsDirty size s := pinsDirty_runAll (pinsDirty_ofStore store suffixes size) calls
  have hs' : PinsDirty size' s' :=
    pinsDirty_runAll (pinsDirty_ofStore store' suffixes' size') calls'
  obtain ⟨hquery, hanchor, hproperties, -⟩ := EntityType.analysed_of_ofQuery ht
  rw [← hquery] at hanchor hproperties
  have hnames := (EntityType.regular_of_ofQuery ht).names_nodup
  have hshown : ∀ n ∈ t.query.projected, n ∈ Algebra.distinctNames (p.restricted e).mentioned :=
    fun n hn => Algebra.mem_restricted (Query.mentioned_of_read hall ▸ hn)
  obtain ⟨ids, selected, hload, hselected⟩ := exists_selected hs hstore hchosen
    (hshown _ hanchor) (fun property hproperty => hshown _ (hproperties property hproperty)) hnames
  obtain ⟨ids', all, hload', hevery⟩ := exists_selected hs' hstore' hall hanchor
    hproperties hnames
  refine ⟨ids, selected, ids', all, hload, hload', hselected, hevery, ?_⟩
  intro id hid hclean e he id' hid' hclean' e' he' huri property hproperty hmany
  have hchosenTerms := fun o => (hselected.terms id hid hclean e he property hproperty hmany o).1
  have hallTerms := fun o => (hevery.terms id' hid' hclean' e' he' property hproperty hmany o).1
  rw [huri, List.filter_true] at hallTerms
  have hpart : ∀ o : Term, Occurs ((p.solutionsAbout g t.anchor e.uri).filter holds) property.name o →
      Occurs (p.solutionsAbout g t.anchor e.uri) property.name o := by
    rintro o ⟨solution, hsolution, hterm⟩
    exact ⟨solution, List.mem_of_mem_filter hsolution, hterm⟩
  refine forall_congr' fun o => ?_
  rw [Bool.eq_iff_iff, hchosenTerms, hallTerms]
  exact ⟨fun h => h.mpr, fun h => ⟨hpart o, h⟩⟩

/-! Notes with several tags. -/

def taggedText : String :=
  "SELECT ?note ?tag WHERE \x7b ?note <http://e/tag> ?tag \x7d"

def taggedPattern : Algebra :=
  .project (.bgp [.plain (.var "note") (.iri "http://e/tag") (.var "tag")]) ["note", "tag"]

def taggedType : EntityType where
  name := "Note"
  query := ⟨taggedText, "", taggedText, ["note", "tag"], .ofAlgebra taggedPattern⟩
  anchor := "note"
  namespaceIri := "http://e/"
  properties := [⟨"tag", .literal, .many, some "http://e/tag", "Literal"⟩]
  synthesis := ⟨"note", [("tag", ⟨false, false, "Literal", false, some "http://e/tag"⟩)]⟩

/-- A note has two tags, one of which another note has. -/
def taggedStore : MemoryStore :=
  { MemoryStore.empty with graph :=
    [.stating "http://e/n1" "http://e/tag" (.literal (.plain "a")),
      .stating "http://e/n2" "http://e/tag" (.literal (.plain "b")),
      .stating "http://e/n1" "http://e/tag" (.literal (.plain "b"))] }

def taggedCondition : Expr :=
  .call "=" [.term (.var "tag"), .term (.literal (.plain "a"))]

theorem ofQuery_tagged :
    EntityType.ofQuery "Note" taggedType.query none "http://e/" ⟨["http://e/tag"], [], []⟩ [] =
      .ok taggedType := rfl

theorem readAll_tagged : Query.read taggedStore.prologue taggedType.allText =
    some (.select taggedPattern taggedType.query.projected) := by cbv

theorem readSelected_tagged :
    Query.read taggedStore.prologue (taggedType.selectedText "?tag = \"a\"") =
      some (taggedPattern.chosen taggedCondition) := by cbv

/-- The row of the only solution with the tag of the condition. -/
def taggedRows : List Row :=
  [[("note", some (.iri "http://e/n1")), ("tag", some (.literal (.plain "a")))]]

theorem rows_tagged :
    let names := Algebra.distinctNames (taggedPattern.restricted taggedCondition).mentioned
    let p := Algebra.project (taggedPattern.restricted taggedCondition) names
    taggedStore.rows p names = taggedRows ∧ solutionRows taggedStore.graph p names = taggedRows := by
  have hgroup : Expr.groupCondition [taggedCondition] = some taggedCondition := rfl
  have hholds : taggedCondition.holdsIn = fun s =>
      ((s.term? "tag").bind fun t => t.equalValue? (.literal (.plain "a"))).any id :=
    funext fun s => Expr.holdsIn_equal _ _ s
  simp only [MemoryStore.rows, solutionRows, Algebra.answers, Algebra.solutions,
    Algebra.restricted, Algebra.filtered, hgroup, hholds]
  decide +kernel

theorem loadSelected_tagged :
    let s := ofStore taggedStore (.ofSequence toString) 1
    ∃ ids selected ids' all,
      s.loadSelected taggedType "?tag = \"a\"" = (.ok ids, selected) ∧
      s.loadAll taggedType = (.ok ids', all) ∧
      Selected taggedType taggedPattern taggedStore.graph taggedCondition.chooses s ids selected ∧
      Selected taggedType taggedPattern taggedStore.graph (fun _ => true) s ids' all := by
  intro s
  have hselected : Answers taggedStore taggedStore.prologue taggedStore.graph
      (taggedType.selectedText "?tag = \"a\"") :=
    MemoryStore.answers_of_rows readSelected_tagged (rows_tagged.1.trans rows_tagged.2.symm)
  have hall : Answers taggedStore taggedStore.prologue taggedStore.graph taggedType.allText :=
    MemoryStore.answers_of_rows readAll_tagged rfl
  obtain ⟨ids, selected, ids', all, hload, hloadAll, hchosen, hevery, -⟩ :=
    loadSelected_complete_iff ofQuery_tagged readAll_tagged readSelected_tagged taggedStore.graph
      taggedCondition.chooses taggedStore taggedStore (.ofSequence toString) (.ofSequence toString)
      1 1 [] [] (hselected.chosen readSelected_tagged) (hall.all readAll_tagged)
  exact ⟨ids, selected, ids', all, hload, hloadAll, hchosen, hevery⟩

/-- A note that is in the cache loses a tag, for which it has a solution, to the condition that it
has another tag. -/
theorem loadSelected_cuts_tags :
    let s := ofStore taggedStore (.ofSequence toString) 2
    ∃ ids all selected, SelectQuery.read [] taggedText = .ok taggedType.query ∧
      s.loadAll taggedType = (.ok ids, all) ∧ all.dirty = [] ∧
      all.loadSelected taggedType "?tag = \"a\"" = (.ok [0], selected) ∧
      (all.entity? 0).map (·.values.terms "tag") =
        some [.literal (.plain "a"), .literal (.plain "b")] ∧
      (selected.entity? 0).map (·.values.terms "tag") = some [.literal (.plain "a")] ∧
      (selected.entity? 0).map (·.committed.terms "tag") = some [.literal (.plain "a")] := by
  intro s
  have hquery : Query.read (Prologue.initial.declareAll []) taggedText =
      some (.select taggedPattern ["note", "tag"]) := by cbv
  have hdeclarations : SelectQuery.declarationText [] (SelectQuery.splitText taggedText).1 = "" := by
    decide +kernel
  have hbody : String.ofList (Text.trim (SelectQuery.splitText taggedText).2) = taggedText := by
    decide +kernel
  have hread : SelectQuery.read [] taggedText = .ok taggedType.query := by
    rw [SelectQuery.read_eq hquery, hdeclarations, hbody, taggedType]
  let all := s.ofRows taggedType (taggedStore.rows taggedPattern ["note", "tag"])
  have hload : s.loadAll taggedType = (.ok all.1, all.2) :=
    loadText_eq (MemoryStore.query_eq readAll_tagged)
  have hstore : all.2.store = taggedStore := store_instantiateAll s _ _ _
  have hanswer := MemoryStore.query_eq readSelected_tagged
  rw [rows_tagged.1, ← hstore] at hanswer
  have hselected := loadText_eq (t := taggedType) hanswer
  have hids : (all.2.ofRows taggedType taggedRows).1 = [0] := by decide +kernel
  refine ⟨all.1, all.2, (all.2.ofRows taggedType taggedRows).2, hread, hload, ?_,
    hids ▸ hselected, ?_, ?_, ?_⟩
  · decide +kernel
  · decide +kernel
  · decide +kernel
  · decide +kernel

end Session

end EntityMapping
