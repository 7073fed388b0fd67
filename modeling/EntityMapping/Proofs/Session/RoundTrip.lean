import EntityMapping.Proofs.Analysis.Star
import EntityMapping.Proofs.Entity.Supplied
import EntityMapping.Proofs.Session.Lookup
import EntityMapping.Proofs.Session.Pending
import EntityMapping.Proofs.Sparql.Required

/-!
An entity that is created, committed, and loaded again by another session.

The two halves meet at what the graph states of the entity.  The commit leaves the terms that the
entity has in memory at the places of its properties, and nothing else there.  From such a graph the
selection of a star has a row for every combination of these terms, and grouping the rows gives
the terms back.
-/

namespace EntityMapping

open Sparql (Algebra Clause Query Star)

namespace EntityType

variable {t : EntityType} {b : Star} {uri : String} {state : EntityState} {g : Graph}
  {rows : List Row} {p : Property}

/-! ### What a graph states of an entity -/

/-- A graph that has, for each property of an entity, the terms of a state and no others. -/
def StatedIn (t : EntityType) (uri : String) (state : EntityState) (g : Graph) : Prop :=
  ∀ p ∈ t.properties, ∀ predicate, p.predicate = some predicate → ∀ o : Term,
    o.memberOf (g.objects (.iri uri) (.iri predicate)) = o.memberOf (state.terms p.name)

/-- A state that fits the properties, and that has a term for every clause which is not optional. -/
structure Selectable (t : EntityType) (b : Star) (state : EntityState) : Prop where
  fits : state.Fits t.properties
  required : ∀ c ∈ b.clauses, c.isOptional = false → state.terms c.name ≠ []

/-- A state that is selected without a violation: every property which must have a term has one. -/
structure Findable (t : EntityType) (b : Star) (state : EntityState) : Prop
    extends t.Selectable b state where
  mandatory : ∀ p ∈ t.properties, p.multiplicity = .one → state.terms p.name ≠ []

/-- A type that follows a star and shows all its variables. -/
structure Presents (t : EntityType) (b : Star) : Prop where
  follows : t.Follows b
  projected : ∀ n, n = b.anchor ∨ n ∈ b.clauses.map Clause.name → n ∈ t.query.projected

theorem OfStar.presents (h : t.OfStar b) : t.Presents b :=
  ⟨h.follows, fun n => (h.projected n).mpr⟩

theorem OfStar.mapped (h : t.OfStar b) : t.Mapped := by
  obtain ⟨name, anchor, namespaceIri, hints, hmade⟩ := h.made
  exact ⟨name, _, anchor, namespaceIri, hints, [], hmade⟩

theorem Follows.exists_property (h : t.Follows b) {c : Clause} (hc : c ∈ b.clauses) :
    ∃ p ∈ t.properties, p.name = c.name ∧ p.predicate = some c.predicate ∧
      (c.isOptional = false → p.multiplicity ≠ .optional) := by
  obtain ⟨p, hp, hname⟩ := h.property c hc
  obtain ⟨d, hd, hdname, hpredicate, hrequired⟩ := h.clause p hp
  have hnames := (List.nodup_cons.mp b.names).2
  obtain rfl := List.inj_on_of_nodup_map hnames hd hc (hdname.symm.trans hname)
  exact ⟨p, hp, hname, hpredicate, hrequired⟩

theorem Follows.eq_of_predicate (h : t.Follows b) (hp : p ∈ t.properties) {q : Property}
    (hq : q ∈ t.properties) (hpredicate : q.predicate = p.predicate) : q = p := by
  obtain ⟨c, hc, hname, hown, -⟩ := h.clause p hp
  obtain ⟨d, hd, hdname, hdown, -⟩ := h.clause q hq
  have hsame : d.predicate = c.predicate :=
    Option.some.inj (hdown.symm.trans (hpredicate.trans hown))
  obtain rfl := List.inj_on_of_nodup_map b.predicates hd hc hsame
  exact List.inj_on_of_nodup_map h.regular.names_nodup hq hp (hdname.trans hname.symm)

/-- The triples of a new entity state it, where no triple was about its IRI before. -/
theorem Follows.statedIn_insertAll (h : t.Follows b) (hfresh : ∀ u ∈ g, u.subject ≠ .iri uri)
    (d : Draft) : t.StatedIn uri d.state (g.insertAll (t.triplesOf uri d.state)) := by
  intro p hp predicate hpredicate o
  rw [Graph.memberOf_objects, Graph.holds_insertAll, Session.holds_fresh hfresh, Bool.false_or]
  exact Session.any_triplesOf_place hp hpredicate
    (fun q hq hother => h.eq_of_predicate hp hq (hother.trans hpredicate.symm)) o

theorem StatedIn.congr (h : t.StatedIn uri state g) {g' : Graph} (hsame : g'.Same g) :
    t.StatedIn uri state g' := by
  intro p hp predicate hpredicate o
  rw [← h p hp predicate hpredicate, Graph.memberOf_objects, Graph.memberOf_objects]
  exact hsame _

theorem StatedIn.memberOf_objects (hstated : t.StatedIn uri state g) (h : t.Follows b)
    {c : Clause} (hc : c ∈ b.clauses) (o : Term) :
    o.memberOf (c.objects g uri) = o.memberOf (state.terms c.name) := by
  obtain ⟨p, hp, hname, hpredicate, -⟩ := h.exists_property hc
  exact hname ▸ hstated p hp c.predicate hpredicate o

theorem StatedIn.objects_ne_nil (hstated : t.StatedIn uri state g) (h : t.Follows b)
    {c : Clause} (hc : c ∈ b.clauses) (hsome : state.terms c.name ≠ []) :
    c.objects g uri ≠ [] := by
  obtain ⟨o, ho⟩ := List.exists_mem_of_ne_nil _ hsome
  have hmember := hstated.memberOf_objects h hc o
  rw [Term.memberOf_iff.mpr ⟨o, ho, Term.same_refl o⟩] at hmember
  obtain ⟨found, hfound, -⟩ := Term.memberOf_iff.mp hmember
  exact List.ne_nil_of_mem hfound

/-- A draft is findable if every property of many values was given one that the selection
requires. -/
theorem Follows.findable_of_draft (h : t.Follows b) {vs : InitialValues}
    (hwrites : t.Writes uri vs) {d : Draft} (hok : t.draft uri vs = .ok d)
    (hfits : d.state.Fits t.properties)
    (hgiven : ∀ p ∈ t.properties, p.multiplicity = .many →
      (∃ c ∈ b.clauses, c.name = p.name ∧ c.isOptional = false) → ∃ v, vs.Supplies p v) :
    t.Findable b d.state := by
  have hwritable : ∀ p ∈ t.properties, p.isWritable = true := by
    intro p hp
    obtain ⟨c, -, -, hpredicate, -⟩ := h.clause p hp
    exact Option.isSome_iff_exists.mpr ⟨_, hpredicate⟩
  refine ⟨⟨hfits, fun c hc hrequired => ?_⟩, fun p hp hone => ?_⟩
  · obtain ⟨p, hp, hname, -, hmust⟩ := h.exists_property hc
    rw [← hname]
    refine terms_of_draft hwrites hok hp (hwritable p hp) fun hone => ?_
    have hmany : p.multiplicity = .many := by
      cases hmultiplicity : p.multiplicity with
      | one => exact absurd hmultiplicity hone
      | optional => exact absurd hmultiplicity (hmust hrequired)
      | many => rfl
    exact hgiven p hp hmany ⟨c, hc, hname.symm, hrequired⟩
  · exact terms_of_draft hwrites hok hp (hwritable p hp) fun hnot => absurd hone hnot

/-! ### Rows that answer a lookup -/

/-- Rows with the terms of the solutions of a star about an IRI. -/
def AnsweredBy (b : Star) (uri : String) (g : Graph) (rows : List Row) : Prop :=
  ∀ name, name = b.anchor ∨ name ∈ b.clauses.map Clause.name →
    rows.map (·.term? name) =
      (Clause.solve g uri b.clauses (Algebra.point b.anchor uri)).map (·.term? name)

/-- There are such rows exactly if the star holds at the IRI. -/
theorem AnsweredBy.ne_nil_iff (h : AnsweredBy b uri g rows) : rows ≠ [] ↔ b.HoldsAt g uri := by
  have hlength := congrArg List.length (h b.anchor (Or.inl rfl))
  rw [List.length_map, List.length_map] at hlength
  rw [← Star.solve_ne_nil_iff, ← List.length_pos_iff, ← List.length_pos_iff, hlength]

theorem AnsweredBy.about (hrows : AnsweredBy b uri g rows) (h : t.Follows b) :
    ∀ row ∈ rows, t.subjectOf? row = some uri := by
  intro row hrow
  have hmem := List.mem_map_of_mem hrow (f := (·.term? b.anchor))
  rw [hrows b.anchor (Or.inl rfl), ← (b.answers_body g uri).1] at hmem
  obtain ⟨s, hs, heq⟩ := List.mem_map.mp hmem
  rw [subjectOf?_eq_some, h.anchor, ← heq]
  exact Star.anchored_of_mem_answers hs

/-- A store answers the lookup of an IRI by such rows. -/
theorem Presents.exists_rows {m : MemoryStore} (h : t.Presents b) {text : String}
    (hread : Query.read m.prologue text =
      some ((Algebra.project b.body t.query.projected).about t.anchor uri)) :
    ∃ rows, m.select text = .ok rows ∧ AnsweredBy b uri m.graph rows := by
  rw [h.follows.anchor] at hread
  let pattern := Algebra.project b.body t.query.projected
  let outer := Algebra.distinctNames (pattern.pointed b.anchor uri).mentioned
  refine ⟨m.rows (.project (pattern.pointed b.anchor uri) outer) outer, ?_, fun name hname => ?_⟩
  · rw [MemoryStore.select, hread]
    rfl
  · exact m.terms_rows_about b uri (h.projected b.anchor (Or.inl rfl)) (h.projected name hname)

/-! ### Rows that describe an entity -/

/-- Rows that are about one entity and that have the terms of a state among them, as objects of a
graph. -/
structure Described (t : EntityType) (uri : String) (state : EntityState) (g : Graph)
    (rows : List Row) : Prop where
  nonempty : rows ≠ []
  about : ∀ row ∈ rows, t.subjectOf? row = some uri
  terms : ∀ p ∈ t.properties, ∀ o : Term,
    o.memberOf (rows.filterMap (·.term? p.name)) = o.memberOf (state.terms p.name)
  stored : ∀ p ∈ t.properties, ∀ o ∈ rows.filterMap (·.term? p.name), ∃ u ∈ g, u.object = o

/-- Where the graph states an entity, rows that answer its lookup describe it. -/
theorem StatedIn.described (hstated : t.StatedIn uri state g) (h : t.Follows b)
    (hselectable : t.Selectable b state) (hrows : AnsweredBy b uri g rows) :
    t.Described uri state g rows := by
  have hnames := (List.nodup_cons.mp b.names).2
  have hready : Clause.Ready b.anchor uri b.clauses (Algebra.point b.anchor uri) :=
    Clause.ready_point b.names
  have hholds : b.HoldsAt g uri :=
    fun c hc hrequired => hstated.objects_ne_nil h hc (hselectable.required c hc hrequired)
  -- the terms of a property in the rows are what the graph has for its clause
  have hfound : ∀ p ∈ t.properties, ∃ c ∈ b.clauses, p.name = c.name ∧
      ∀ o, o ∈ rows.filterMap (·.term? p.name) ↔ o ∈ c.objects g uri := by
    intro p hp
    obtain ⟨c, hc, hname, -, -⟩ := h.clause p hp
    have hsame := congrArg (List.filterMap id) (hrows c.name (Or.inr (List.mem_map_of_mem hc)))
    rw [List.filterMap_map, List.filterMap_map] at hsame
    have hterms : rows.filterMap (·.term? c.name) = (Clause.solve g uri b.clauses
        (Algebra.point b.anchor uri)).filterMap (·.term? c.name) := hsame
    refine ⟨c, hc, hname, fun o => ?_⟩
    rw [hname, hterms]
    exact Clause.mem_found_iff hnames hready hholds hc
  constructor
  · exact hrows.ne_nil_iff.mpr hholds
  · exact hrows.about h
  · intro p hp o
    obtain ⟨c, hc, hname, hmem⟩ := hfound p hp
    have hobjects : o.memberOf (state.terms p.name) = o.memberOf (c.objects g uri) :=
      hname ▸ (hstated.memberOf_objects h hc o).symm
    rw [hobjects, Bool.eq_iff_iff, Term.memberOf_iff, Term.memberOf_iff]
    simp only [hmem]
  · intro p hp o ho
    obtain ⟨c, hc, hname, hmem⟩ := hfound p hp
    exact Graph.exists_of_mem_objects ((hmem o).mp ho)

variable (hrows : t.Described uri state g rows)
include hrows

theorem Described.memberOf_valuesIn (hp : p ∈ t.properties) (o : Term) :
    o.memberOf (p.valuesIn rows) = o.memberOf (state.terms p.name) :=
  (Property.memberOf_valuesIn p rows o).trans (hrows.terms p hp o)

variable (hfits : state.Fits t.properties)
include hfits

/-- The rows have one value at most for a property of a single value. -/
theorem Described.length_valuesIn (hp : p ∈ t.properties) (hone : p.isFunctional = true) :
    (p.valuesIn rows).length ≤ 1 := by
  have hstate : (state.terms p.name).length ≤ 1 := by
    have hshape := hfits.shape p hp
    rw [hone] at hshape
    rw [EntityState.terms]
    cases hproperty : state.property p.name with
    | several values =>
        rw [hproperty] at hshape
        contradiction
    | single value => cases value <;> simp [PropertyState.terms]
  refine Nat.le_trans ?_ hstate
  apply (Property.apart_valuesIn p rows).length_le
  intro o ho
  rw [← hrows.memberOf_valuesIn hp]
  exact Term.memberOf_iff.mpr ⟨o, ho, Term.same_refl o⟩

/-- Grouping the rows drops none of their terms. -/
theorem Described.terms_stateIn (hp : p ∈ t.properties)
    (hnames : (t.properties.map Property.name).Nodup) :
    (t.stateIn rows).terms p.name = p.valuesIn rows := by
  have hroom : p.isFunctional = false ∨ (p.valuesIn rows).length ≤ 1 := by
    cases hone : p.isFunctional with
    | false => exact Or.inl rfl
    | true => exact Or.inr (hrows.length_valuesIn hfits hp hone)
  rw [EntityType.terms_stateIn hnames hp, Property.terms_stateIn hroom]

/-- Grouping the rows gives the terms of the state. -/
theorem Described.memberOf_stateIn (hp : p ∈ t.properties)
    (hnames : (t.properties.map Property.name).Nodup) (o : Term) :
    o.memberOf ((t.stateIn rows).terms p.name) = o.memberOf (state.terms p.name) := by
  rw [hrows.terms_stateIn hfits hp hnames]
  exact hrows.memberOf_valuesIn hp o

/-- Grouping the rows gives objects of the graph. -/
theorem Described.exists_of_mem_stateIn (hp : p ∈ t.properties)
    (hnames : (t.properties.map Property.name).Nodup) {o : Term}
    (ho : o ∈ (t.stateIn rows).terms p.name) : ∃ u ∈ g, u.object = o := by
  rw [hrows.terms_stateIn hfits hp hnames] at ho
  obtain ⟨row, hrow, hterm⟩ := Property.mem_valuesIn ho
  exact hrows.stored p hp o (List.mem_filterMap.mpr ⟨row, hrow, hterm⟩)

omit hfits in
/-- The rows break no promise. -/
theorem Described.violationsIn_eq (hfindable : t.Findable b state) :
    t.violationsIn uri rows = [] := by
  refine List.filterMap_eq_nil_iff.mpr fun p hp => ?_
  unfold Property.violationIn
  dsimp only
  cases hone : p.isFunctional with
  | false => rfl
  | true =>
      have hlength := hrows.length_valuesIn hfindable.fits hp hone
      have hsome : p.isNullable = false → (p.valuesIn rows).length ≠ 0 := by
        intro hmandatory hnone
        have hmultiplicity : p.multiplicity = .one := by
          cases hmultiplicity : p.multiplicity with
          | one => rfl
          | optional => simp [Property.isNullable, hmultiplicity] at hmandatory
          | many => simp [Property.isFunctional, hmultiplicity] at hone
        obtain ⟨o, ho⟩ := List.exists_mem_of_ne_nil _ (hfindable.mandatory p hp hmultiplicity)
        have hmember := hrows.memberOf_valuesIn hp o
        rw [List.length_eq_zero_iff.mp hnone, Term.memberOf_iff.mpr ⟨o, ho, Term.same_refl o⟩]
          at hmember
        contradiction
      cases hnullable : p.isNullable with
      | true => simp [Nat.not_lt.mpr hlength]
      | false => simp [Nat.not_lt.mpr hlength, hsome hnullable]

end EntityType

namespace Session

variable {s created : Session MemoryStore} {t : EntityType} {b : Star} {vs : InitialValues}
  {id : EntityId} {d : Draft} {uri : String}

/-! ### Writing -/

/-- A creation that is not refused leaves a new entity with the state of its draft. -/
theorem create_ok (h : s.create t vs = (.ok id, created)) :
    ∃ d, t.draft (s.freshIri t) vs = .ok d ∧ id = s.entities.length ∧
      created = s.afterCreation t d := by
  rcases s.create_cases t vs with ⟨cause, suffixes, hrefused⟩ | ⟨d, hdraft, hcreated⟩
  · cases congrArg Prod.fst (h.symm.trans hrefused)
  · obtain ⟨hid, rfl⟩ := Prod.mk.inj (h.symm.trans hcreated)
    exact ⟨d, hdraft, Except.ok.inj hid, rfl⟩

/-- A commit whose request the store carries out changes nothing else that can be seen, and leaves
nothing that waits. -/
theorem exists_commit {changes : List Change} (hjournal : s.journal = ⟨changes, false⟩)
    (hsome : changes ≠ []) {text : String} (htext : Change.combine changes = .ok text)
    {after : MemoryStore} (hafter : s.store.apply text = .ok after) :
    ∃ committed, s.commit = (.ok changes.length, committed) ∧
      Session.Alike { s with store := after } committed ∧ committed.journal = ⟨[], false⟩ := by
  let begun : Commit := ⟨⟨changes, text⟩, s.dirtyStates⟩
  let sent : Session MemoryStore := { s.underway with store := after }
  have hbegun : s.beginCommit = (.ok (some begun), s.underway) := by
    simp [beginCommit, Journal.start, Journal.update, hjournal, hsome, htext, underway, begun]
  have hsent : send text s.underway = (.accepted, sent) := by
    simp only [send, GraphStore.update, underway, hafter]
    rfl
  have hended := alike_endCommit sent begun .accepted
  refine ⟨(sent.endCommit begun .accepted).2, ?_, ⟨hended.entity, hended.store⟩, ?_⟩
  · rw [commit, commitWith, hbegun]
    simp only [begun, hsent]
    rfl
  · rw [endCommit_accepted_journal]
    simp only [sent, begun, underway, hjournal, List.drop_length]

/-- The commit of a creation behind edits that wait. -/
theorem exists_commit_afterCreation {edits : List Edit}
    (hjournal : s.journal = ⟨edits.map Edit.change, false⟩) (hedits : ∀ e ∈ edits, e.Readable)
    (hdrafted : EntityType.Drafted s.store.prologue t (s.freshIri t) d) :
    ∃ committed, (s.afterCreation t d).commit = (.ok (edits.length + 1), committed) ∧
      committed.store.graph.Same
        ((Edit.replay edits s.store.graph).insertAll (t.triplesOf (s.freshIri t) d.state)) ∧
      committed.store.prologue = s.store.prologue ∧
      ∃ e, committed.entity? s.entities.length = some e ∧ e.values = d.state := by
  let c : Change := .create (s.freshIri t) (Change.separator.intercalate d.updates)
  have hwaits : (s.afterCreation t d).journal = ⟨edits.map Edit.change ++ [c], false⟩ :=
    (record_journal _ _ _).trans (congrArg (Journal.append · c) hjournal)
  have hbase : s.store.prologue.base = none := rfl
  obtain ⟨text, htext, hperforms⟩ :=
    Edit.exists_combine_append hbase hedits (c := c) ⟨_, rfl, hdrafted.performs⟩
  obtain ⟨after, hafter, hsame, hprefixes⟩ := s.store.apply_of_performs hperforms
  have hstore : (s.afterCreation t d).store = s.store := record_store _ _ _
  rw [← hstore] at hafter
  obtain ⟨committed, hcommit, halike, -⟩ :=
    exists_commit hwaits (List.append_ne_nil_of_right_ne_nil _ (List.cons_ne_nil c [])) htext hafter
  refine ⟨committed, ?_, ?_, ?_, ?_⟩
  · rw [hcommit, List.length_append, List.length_map]
    rfl
  · rw [← halike.store]
    exact hsame
  · rw [← halike.store]
    exact congrArg (Sparql.Prologue.mk none) hprefixes
  · have he := (entity?_afterCreation s t d s.entities.length).trans (if_pos rfl)
    obtain ⟨e, hfound, -, -, hvalues, -⟩ := halike.exists_entity he
    exact ⟨e, hfound, hvalues⟩

/-! ### Reading -/

/-- A session that has just begun, with types and listeners. -/
def fresh {σ : Type} (store : σ) (suffixes : Suffixes) (cacheSize : Nat) (types : List EntityType)
    (listeners : Listeners) : Session σ :=
  { ofStore store suffixes cacheSize with types := types, listeners := listeners }

theorem pinsDirty_fresh {σ : Type} (store : σ) (suffixes : Suffixes) (cacheSize : Nat)
    (types : List EntityType) (listeners : Listeners) :
    PinsDirty cacheSize (fresh store suffixes cacheSize types listeners) :=
  (pinsDirty_ofStore store suffixes cacheSize).congr rfl rfl (fun _ => rfl) rfl

variable {m : MemoryStore} {state : EntityState}

/-- A fresh session loads an entity with terms of the graph that are the ones that it states.  If
all that must be there is, it tells of no violation. -/
theorem exists_load_selected (h : t.Presents b) (hstated : t.StatedIn uri state m.graph)
    (hselectable : t.Selectable b state) {iri : Term} (hiri : checkIri uri = .ok iri)
    (hread : Query.read m.prologue (t.oneText iri) =
      some ((Algebra.project b.body t.query.projected).about t.anchor uri))
    (suffixes : Suffixes) (cacheSize : Nat) (types : List EntityType) (listeners : Listeners) :
    ∃ found loaded values,
      (fresh m suffixes cacheSize types listeners).load t uri = (.ok (some found), loaded) ∧
      loaded.entity? found = some (.loaded t uri values) ∧
      (∀ p ∈ t.properties, (∀ o ∈ values.terms p.name, ∃ u ∈ m.graph, u.object = o) ∧
        ∀ o : Term, o.memberOf (values.terms p.name) = o.memberOf (state.terms p.name)) ∧
      (t.Findable b state → loaded.heard = []) := by
  obtain ⟨rows, hanswer, hrows⟩ := h.exists_rows hread
  have hdescribed := hstated.described h.follows hselectable hrows
  have hnames := h.follows.regular.names_nodup
  obtain ⟨found, loaded, hload, hfound, hentity, htold⟩ := exists_load
    (pinsDirty_fresh m suffixes cacheSize types listeners) rfl hiri hanswer hdescribed.about
  rw [if_neg hdescribed.nonempty] at htold
  cases found with
  | none => exact absurd (hfound.mp rfl) hdescribed.nonempty
  | some found =>
      refine ⟨found, loaded, t.stateIn rows, hload, hentity found rfl, fun p hp => ?_,
        fun hfindable => ?_⟩
      · exact ⟨fun o ho => hdescribed.exists_of_mem_stateIn hselectable.fits hp hnames ho,
          hdescribed.memberOf_stateIn hselectable.fits hp hnames⟩
      · rw [hdescribed.violationsIn_eq hfindable] at htold
        exact htold.1

/-- A fresh session loads an entity with the terms that the graph states. -/
theorem exists_load_stated (hstar : t.OfStar b) (hstated : t.StatedIn uri state m.graph)
    (hfindable : t.Findable b state) {iri : Term} (hiri : checkIri uri = .ok iri)
    (hread : Query.read m.prologue (t.oneText iri) =
      some ((Algebra.project b.body t.query.projected).about t.anchor uri))
    (suffixes : Suffixes) (cacheSize : Nat) (types : List EntityType) (listeners : Listeners) :
    ∃ found loaded values,
      (fresh m suffixes cacheSize types listeners).load t uri = (.ok (some found), loaded) ∧
      loaded.entity? found = some (.loaded t uri values) ∧
      (∀ p ∈ t.properties, ∀ o : Term,
        o.memberOf (values.terms p.name) = o.memberOf (state.terms p.name)) ∧
      loaded.heard = [] := by
  obtain ⟨found, loaded, values, hload, hentity, hterms, hheard⟩ :=
    exists_load_selected hstar.presents hstated hfindable.toSelectable hiri hread suffixes
      cacheSize types listeners
  exact ⟨found, loaded, values, hload, hentity, fun p hp => (hterms p hp).2, hheard hfindable⟩

/-! ### There and back -/

end Session

/-- A star that can be written: its variables are slots, and its predicates may stand in
brackets. -/
structure Sparql.Star.Spelled (b : Star) : Prop where
  anchor : IsSlot b.anchor
  names : ∀ c ∈ b.clauses, IsSlot c.name
  predicates : ∀ c ∈ b.clauses, ∀ character ∈ c.predicate.toList,
    Sparql.Lexer.isIriChar character = true

theorem EntityType.OfStar.writes {t : EntityType} {b : Star} (hstar : t.OfStar b)
    (hspelled : b.Spelled) {uri : String} (huri : ValidIri uri) {vs : InitialValues}
    (hterms : ∀ p ∈ t.properties, ∀ v o, vs.Supplies p v → p.toTerm v = .ok o → o.Writable) :
    t.Writes uri vs := by
  have hfollows := hstar.follows
  refine ⟨hfollows.regular, hstar.anchor ▸ hspelled.anchor, fun p hp => ?_, huri,
    fun p hp predicate hpredicate => ?_, hterms⟩
  · obtain ⟨c, hc, hname, -⟩ := hfollows.clause p hp
    exact hname ▸ hspelled.names c hc
  · obtain ⟨c, hc, -, hown, -⟩ := hfollows.clause p hp
    obtain rfl := Option.some.inj (hown.symm.trans hpredicate)
    exact hspelled.predicates c hc

namespace Session

/-- An entity of a star that is created and committed is found by every session that begins then,
with the terms that it has in memory, and without violations.  Where the selection requires a
property of many values, the creation has to be given one.  Other edits may wait to be committed
with it, as long as they state nothing of the new IRI. -/
theorem load_committed {t : EntityType} {b : Star} (hstar : t.OfStar b) (hspelled : b.Spelled)
    {s created : Session MemoryStore} {edits : List Edit}
    (hjournal : s.journal = ⟨edits.map Edit.change, false⟩) (hedits : ∀ e ∈ edits, e.Readable)
    (huri : ValidIri (s.freshIri t))
    (hfresh : ∀ u ∈ Edit.replay edits s.store.graph, u.subject ≠ .iri (s.freshIri t))
    (hread : Query.read s.store.prologue (t.oneText (.iri (s.freshIri t))) =
      some ((Algebra.project b.body t.query.projected).about t.anchor (s.freshIri t)))
    {vs : InitialValues} {id : EntityId} (hcreate : s.create t vs = (.ok id, created))
    (hgiven : ∀ p ∈ t.properties, p.multiplicity = .many →
      (∃ c ∈ b.clauses, c.name = p.name ∧ c.isOptional = false) → ∃ v, vs.Supplies p v)
    (hterms : ∀ p ∈ t.properties, ∀ v o, vs.Supplies p v → p.toTerm v = .ok o → o.Writable)
    (suffixes : Suffixes) (cacheSize : Nat) (types : List EntityType) (listeners : Listeners) :
    ∃ state committed kept found loaded values,
      created.entity? id = some (.created t (s.freshIri t) state) ∧
      created.commit = (.ok (edits.length + 1), committed) ∧
      committed.entity? id = some kept ∧ kept.values = state ∧
      (fresh committed.store suffixes cacheSize types listeners).load t (s.freshIri t) =
        (.ok (some found), loaded) ∧
      loaded.entity? found = some (.loaded t (s.freshIri t) values) ∧
      (∀ p ∈ t.properties, ∀ o : Term,
        o.memberOf (values.terms p.name) = o.memberOf (state.terms p.name)) ∧
      loaded.heard = [] := by
  have hwrites := hstar.writes hspelled huri hterms
  obtain ⟨d, hdraft, rfl, rfl⟩ := create_ok hcreate
  have hbase : s.store.prologue.base = none := rfl
  have hdrafted := EntityType.drafted_of_draft hbase hwrites hdraft
  have hfindable := hstar.follows.findable_of_draft hwrites hdraft hdrafted.fits hgiven
  obtain ⟨committed, hcommit, hgraph, hprologue, kept, hkept, hvalues⟩ :=
    exists_commit_afterCreation hjournal hedits hdrafted
  have hstated := (hstar.follows.statedIn_insertAll hfresh d).congr hgraph
  obtain ⟨found, loaded, values, hload, hentity, hsame, hheard⟩ := exists_load_stated hstar hstated
    hfindable huri.1 (hprologue ▸ hread) suffixes cacheSize types listeners
  exact ⟨d.state, committed, kept, found, loaded, values,
    (entity?_afterCreation s t d _).trans (if_pos rfl), hcommit, hkept, hvalues, hload, hentity,
    hsame, hheard⟩

/-! Notes with one title, any number of tags and perhaps a comment, which is asked for first. -/

def commentedStar : Star where
  anchor := "note"
  clauses := [⟨"http://e/comment", "comment", true⟩, ⟨"http://e/title", "title", false⟩,
    ⟨"http://e/tag", "tag", false⟩]
  names := by decide
  predicates := by decide
  required := ⟨⟨"http://e/tag", "tag", false⟩, by decide, rfl⟩

def commentedText : String :=
  "SELECT ?note ?comment ?title ?tag WHERE \x7b " ++
    "OPTIONAL \x7b ?note <http://e/comment> ?comment \x7d " ++
    "?note <http://e/title> ?title . ?note <http://e/tag> ?tag \x7d"

def commentedType : EntityType where
  name := "Note"
  query := ⟨commentedText, "", commentedText, ["note", "comment", "title", "tag"],
    .ofAlgebra (.project commentedStar.body ["note", "comment", "title", "tag"])⟩
  anchor := "note"
  namespaceIri := "http://e/"
  properties := [⟨"comment", .literal, .optional, some "http://e/comment", "Literal"⟩,
    ⟨"title", .literal, .one, some "http://e/title", "Literal"⟩,
    ⟨"tag", .literal, .many, some "http://e/tag", "Literal"⟩]
  synthesis := ⟨"note", [("comment", ⟨true, true, "Literal", false, some "http://e/comment"⟩),
    ("title", ⟨true, false, "Literal", false, some "http://e/title"⟩),
    ("tag", ⟨false, false, "Literal", false, some "http://e/tag"⟩)]⟩

def commentedValues : InitialValues :=
  [("title", .datum (.text "a")),
    ("tag", .list [.term (.literal MemoryStore.trickyText), .datum (.text "a")])]

/-- Another note is to have a title. -/
def commentedEdits : List Edit :=
  [.add "http://e/other" "http://e/title" (.literal (.plain "a"))]

/-- A session in whose store the other note has a comment. -/
def commentedSession : Session MemoryStore :=
  { ofStore { MemoryStore.empty with graph :=
      [.stating "http://e/other" "http://e/comment" (.literal (.plain "a"))] }
      (.ofSequence toString) 4 with
    journal := ⟨commentedEdits.map Edit.change, false⟩ }

theorem ofStar_commented : commentedType.OfStar commentedStar where
  made := ⟨"Note", none, "http://e/", ⟨["http://e/tag"], [], []⟩, rfl⟩
  anchor := rfl
  pattern := rfl
  projected n := by simp [commentedType, commentedStar]

theorem spelled_commented : commentedStar.Spelled where
  anchor := Piece.isSlotName_of_all rfl rfl
  names c hc := by
    simp only [commentedStar, List.mem_cons, List.not_mem_nil, or_false] at hc
    rcases hc with rfl | rfl | rfl <;> exact Piece.isSlotName_of_all rfl rfl
  predicates c hc := by
    simp only [commentedStar, List.mem_cons, List.not_mem_nil, or_false] at hc
    rcases hc with rfl | rfl | rfl <;> exact List.all_eq_true.mp rfl

theorem readable_commentedEdits : ∀ e ∈ commentedEdits, e.Readable := by
  intro e he
  obtain rfl := List.mem_singleton.mp he
  exact ⟨validIri_of_all rfl rfl, validIri_of_all rfl rfl, MemoryStore.readsBack_plain_a⟩

theorem fresh_commented : ∀ u ∈ Edit.replay commentedEdits commentedSession.store.graph,
    u.subject ≠ .iri "http://e/note0" := by
  have hgraph : Edit.replay commentedEdits commentedSession.store.graph =
      [.stating "http://e/other" "http://e/comment" (.literal (.plain "a")),
        .stating "http://e/other" "http://e/title" (.literal (.plain "a"))] := rfl
  intro u hu
  rw [hgraph, List.mem_cons, List.mem_singleton] at hu
  rcases hu with rfl | rfl <;> decide

theorem writable_commented : ∀ p ∈ commentedType.properties, ∀ v o,
    commentedValues.Supplies p v → p.toTerm v = .ok o → o.Writable := by
  intro p hp v o hv ho
  simp only [commentedType, List.mem_cons, List.not_mem_nil, or_false] at hp
  rcases hp with rfl | rfl | rfl
  · cases hv with
    | mandatory hone hv => contradiction
    | item hone hitems hv =>
        obtain rfl := Except.ok.inj hitems
        contradiction
  · cases hv with
    | mandatory hone hv =>
        obtain rfl := Option.some.inj hv
        obtain rfl := Except.ok.inj ho
        exact MemoryStore.readsBack_plain_a
    | item hone hitems hv => exact absurd rfl hone
  · cases hv with
    | mandatory hone hv => contradiction
    | item hone hitems hv =>
        obtain rfl := Except.ok.inj hitems
        simp only [List.mem_cons, List.not_mem_nil, or_false] at hv
        rcases hv with rfl | rfl
        · obtain rfl := Except.ok.inj ho
          exact MemoryStore.readsBack_trickyText
        · obtain rfl := Except.ok.inj ho
          exact MemoryStore.readsBack_plain_a

theorem given_commented : ∀ p ∈ commentedType.properties, p.multiplicity = .many →
    (∃ c ∈ commentedStar.clauses, c.name = p.name ∧ c.isOptional = false) →
    ∃ v, commentedValues.Supplies p v := by
  intro p hp hmany _
  simp only [commentedType, List.mem_cons, List.not_mem_nil, or_false] at hp
  rcases hp with rfl | rfl | rfl
  · contradiction
  · contradiction
  · exact ⟨_, .item Multiplicity.noConfusion rfl List.mem_cons_self⟩

set_option maxRecDepth 4096 in
theorem read_commented : Query.read commentedSession.store.prologue
    (commentedType.oneText (.iri "http://e/note0")) =
      some ((Algebra.project commentedStar.body commentedType.query.projected).about "note"
        "http://e/note0") := by cbv

theorem load_committed_commented :
    let created := (commentedSession.create commentedType commentedValues).2
    commentedSession.create commentedType commentedValues = (.ok 0, created) ∧
    ∃ state committed kept found loaded values,
      created.entity? 0 = some (.created commentedType "http://e/note0" state) ∧
      created.commit = (.ok 2, committed) ∧
      committed.entity? 0 = some kept ∧ kept.values = state ∧
      (fresh committed.store (.ofSequence toString) 1 [commentedType] [⟨"l", false⟩]).load
        commentedType "http://e/note0" = (.ok (some found), loaded) ∧
      loaded.entity? found = some (.loaded commentedType "http://e/note0" values) ∧
      (∀ p ∈ commentedType.properties, ∀ o : Term,
        o.memberOf (values.terms p.name) = o.memberOf (state.terms p.name)) ∧
      loaded.heard = [] := by
  intro created
  have hcreate : commentedSession.create commentedType commentedValues = (.ok 0, created) := rfl
  have huri : commentedSession.freshIri commentedType = "http://e/note0" := rfl
  have hvalid : ValidIri "http://e/note0" := validIri_of_all rfl rfl
  exact ⟨hcreate, load_committed (s := commentedSession) ofStar_commented spelled_commented rfl
    readable_commentedEdits hvalid fresh_commented read_commented hcreate given_commented
    writable_commented (.ofSequence toString) 1 [commentedType] [⟨"l", false⟩]⟩

end Session

end EntityMapping
