import EntityMapping.Proofs.Entity.Lasting
import EntityMapping.Proofs.Session.Removal
import EntityMapping.Proofs.Session.RoundTrip
import EntityMapping.Proofs.Session.WriteBack

/-!
Values that outlast a commit.

In memory a literal keeps the value that it was made of; from the store it comes with the value that
its text is read as.  The two agree where the value is of the type of its datatype: then the text
in the request is read as the value again, and so are all literals of the store that are the same
term.
-/

namespace EntityMapping

open Sparql (Algebra Clause Query Star)

/-- Honest literals that are one term are read as one value. -/
theorem Literal.Honest.twin {l : Literal} (hl : l.Honest) (hnumber : l.Comparable) {o : Term}
    (ho : o.Honest) (hsame : (Term.literal l).same o = true) :
    (Value.ofTerm (.literal l)).twin (.ofTerm o) = true := by
  cases o with
  | literal a =>
      rcases hl.value_same (ho a rfl) hsame hnumber with ⟨hnone, hnone'⟩ | ⟨d, e, hd, he, hequal⟩
      · simp only [Value.ofTerm, hnone, hnone', Value.twin]
        exact hsame
      · simp only [Value.ofTerm, hd, he, Value.twin, hequal]
  | _ => contradiction

/-- A property of a single value that is set to a datum has one literal then, chosen beside what it
had, and an edit puts the literal in the place of that. -/
theorem Entity.Writable.exists_set {e : Entity} {name predicate : String} {p : Property}
    (hw : e.Writable name p predicate) (hsound : e.Sound) (hkind : p.kind = .literal)
    (hone : p.isFunctional = true) (d : Datum) :
    ∃ stored ⊆ e.values.terms name, ∃ l, ∃ edit : Edit, p.Chosen stored (.datum d) l ∧
      e.set name (.datum d) =
        .ok (some (e.holding name (.single (some (.literal l))), edit.change)) ∧
      ((Term.literal l).Writable → edit.Readable) ∧
      edit.Exchanges e.uri predicate (e.values.terms name) [.literal l] := by
  have hpredicate := hsound.validIri hw
  cases hold : (e.values.terms name).head? with
  | none =>
      obtain ⟨l, hterm, hchosen⟩ := Property.exists_chosen hkind d []
      refine ⟨[], List.nil_subset _, l, Edit.add e.uri predicate (.literal l), hchosen,
        hw.set_first hone hold Value.noConfusion hterm,
        fun hl => ⟨hsound.uri, hpredicate, hl⟩, ?_⟩
      rw [List.head?_eq_none_iff.mp hold]
      exact Edit.exchanges_add e.uri predicate _
  | some old =>
      obtain ⟨l, hterm, hchosen⟩ := Property.exists_chosen hkind d [old]
      have hmem := List.mem_of_mem_head? hold
      refine ⟨[old], List.cons_subset.mpr ⟨hmem, List.nil_subset _⟩, l,
        Edit.replace e.uri predicate old (.literal l), hchosen,
        hw.set_another hone hold Value.noConfusion hterm,
        fun hl => ⟨hsound.uri, hpredicate, hsound.writable hw old hmem, hl⟩, ?_⟩
      rw [Session.terms_of_head? hsound.fits hw hone hold]
      exact Edit.exchanges_replace e.uri predicate old _

/-- An entity is stated with other terms where these are put in place of what it had. -/
theorem EntityType.StatedIn.holding {e : Entity} {p : Property} {predicate : String}
    {state : PropertyState} {g after : Graph} (h : e.type.StatedIn e.uri e.values g)
    (hsound : e.Sound) (hw : e.Writable p.name p predicate)
    (hown : ∀ q ∈ e.type.properties, q.predicate = p.predicate → q = p)
    (hplace : ∀ o, after.holds (.stating e.uri predicate o) = o.memberOf state.terms)
    (helse : after.SameElsewhere g e.uri predicate) :
    e.type.StatedIn e.uri (e.holding p.name state).values after := by
  intro q hq place hq' o
  rw [Graph.memberOf_objects, Entity.terms_holding hsound.fits hw]
  by_cases hqp : q = p
  · subst hqp
    obtain rfl := Option.some.inj (hw.predicate.symm.trans hq')
    rw [if_pos rfl]
    exact hplace o
  · have hplaces : place ≠ predicate := fun heq =>
      hqp (hown q hq (hq'.trans (heq ▸ hw.predicate.symm)))
    have hnames : q.name ≠ p.name := fun heq =>
      hqp (List.inj_on_of_nodup_map hsound.mapped.regular.names_nodup hq
        (EntityType.property_ok hw.property).1 heq)
    rw [if_neg hnames, helse _ _ (Or.inr hplaces), ← Graph.memberOf_objects]
    exact h q hq place hq' o

theorem Graph.Honest.objects {g : Graph} (h : g.Honest) {subject predicate o : Term}
    (ho : o ∈ g.objects subject predicate) : o.Honest := by
  obtain ⟨u, hu, rfl⟩ := exists_of_mem_objects ho
  exact h u hu

namespace Session

variable {s after : Session MemoryStore} {edits : List Edit} {id : EntityId} {e : Entity}
  {p : Property} {predicate : String} {l : Literal}

/-! ### Committing what waits -/

/-- Edits that can be written wait to be committed. -/
structure Waits (s : Session MemoryStore) (edits : List Edit) : Prop where
  journal : s.journal = ⟨edits.map Edit.change, false⟩
  readable : ∀ edit ∈ edits, edit.Readable

/-- The edits of a session that shows what it waits for. -/
theorem Pending.waits (h : s.Pending [] edits) (hidle : s.journal.committing = false) :
    s.Waits edits where
  journal := by
    rw [← hidle, ← List.nil_append (edits.map Edit.change), ← h.changes]
  readable := h.readable

/-- A view states every live entity. -/
theorem Shown.statedIn {g : Graph} (h : s.Shown g) (he : s.entity? id = some e)
    (halive : e.deleted = false) : e.type.StatedIn e.uri e.values g := by
  intro p hp predicate hpredicate o
  rw [Graph.memberOf_objects]
  exact h.owned ⟨he, halive, hp, hpredicate⟩ o

theorem Waits.append (h : s.Waits edits) {edit : Edit} (hreadable : edit.Readable)
    (hjournal : after.journal = s.journal.append edit.change) : after.Waits (edits ++ [edit]) where
  journal := by
    rw [hjournal, h.journal, List.map_append]
    rfl
  readable other hother := by
    rcases List.mem_append.mp hother with hother | hother
    · exact h.readable other hother
    · exact List.mem_singleton.mp hother ▸ hreadable

/-- A commit of edits that wait makes them of the store's graph, which stays honest.  The entities
are as they were, and nothing waits any more. -/
theorem Waits.exists_commit (h : s.Waits edits) :
    ∃ committed, s.commit = (.ok edits.length, committed) ∧ committed.Waits [] ∧
      Session.Alike { s with store := committed.store } committed ∧
      committed.store.graph.Same (Edit.replay edits s.store.graph) ∧
      committed.store.prologue = s.store.prologue ∧
      (s.store.graph.Honest → committed.store.graph.Honest) := by
  by_cases hsome : edits = []
  · subst hsome
    refine ⟨s, ?_, h, .refl s, .refl s.store.graph, rfl, fun hhonest => hhonest⟩
    rw [commit, commitWith, beginCommit, h.journal]
    rfl
  have hbase : s.store.prologue.base = none := rfl
  obtain ⟨texts, htexts, -, hperforms⟩ := Edit.performs_replay hbase hsome h.readable
  obtain ⟨after, hafter, hsame, hprefixes⟩ := s.store.apply_of_performs hperforms
  have htext : Change.combine (edits.map Edit.change) =
      .ok (Change.separator.intercalate texts) := by
    rw [Change.combine, htexts]
    rfl
  obtain ⟨committed, hcommit, halike, hjournal⟩ :=
    Session.exists_commit h.journal (fun hnil => hsome (List.map_eq_nil_iff.mp hnil)) htext hafter
  have hstore : committed.store = after := halike.store.symm
  refine ⟨committed, ?_, ⟨hjournal, fun _ hnone => absurd hnone List.not_mem_nil⟩,
    ⟨halike.entity, rfl⟩, hstore ▸ hsame, ?_, fun hhonest => ?_⟩
  · rw [hcommit, List.length_map]
  · rw [hstore]
    exact congrArg (Sparql.Prologue.mk none) hprefixes
  · exact hstore ▸ MemoryStore.honest_of_performs hperforms hafter hhonest

/-! ### Reading again -/

/-- A property of an entity is read as a value, and of a kind of terms after a commit.  The session
reads the value; the commit succeeds; the store has terms for the property then, all of the kind.  If
the type shows a star that selects the entity, each session that begins then finds it, and reads the
property of such a term. -/
def Stores (s : Session MemoryStore) (id : EntityId) (p : Property) (predicate : String)
    (before : Value) (kept : Term → Prop) : Prop :=
  ∃ e committed, s.entity? id = some e ∧
    s.get id p.name = (.ok (.single before), s) ∧
    s.commit = (.ok s.journal.changes.length, committed) ∧
    committed.store.graph.objects (.iri e.uri) (.iri predicate) ≠ [] ∧
    (∀ o ∈ committed.store.graph.objects (.iri e.uri) (.iri predicate), kept o) ∧
    ∀ b, e.type.Presents b →
      (∀ c ∈ b.clauses, c.isOptional = false → e.values.terms c.name ≠ []) →
      Query.read s.store.prologue (e.type.oneText (.iri e.uri)) =
        some ((Algebra.project b.body e.type.query.projected).about e.type.anchor e.uri) →
      ∀ suffixes cacheSize types listeners, ∃ found loaded o,
        (fresh committed.store suffixes cacheSize types listeners).load e.type e.uri =
          (.ok (some found), loaded) ∧
        loaded.get found p.name = (.ok (.single (.ofTerm o)), loaded) ∧ kept o

/-- A property reads the same before a commit and after it: values that are equal and of one
type. -/
def Rereads (s : Session MemoryStore) (id : EntityId) (p : Property) (predicate : String) : Prop :=
  ∃ before, s.Stores id p predicate before fun o => before.twin (.ofTerm o) = true

theorem Stores.imp {before : Value} {kept also : Term → Prop}
    (h : s.Stores id p predicate before kept) (himp : ∀ o, kept o → also o) :
    s.Stores id p predicate before also := by
  obtain ⟨e, committed, he, hget, hcommit, hsome, hall, hstar⟩ := h
  refine ⟨e, committed, he, hget, hcommit, hsome, fun o ho => himp o (hall o ho), ?_⟩
  intro b hpresents hrequired hread suffixes cacheSize types listeners
  obtain ⟨found, loaded, o, hload, hagain, ho⟩ :=
    hstar b hpresents hrequired hread suffixes cacheSize types listeners
  exact ⟨found, loaded, o, hload, hagain, himp o ho⟩

/-- Where a star selects the entity, a session that begins after the commit finds the property. -/
theorem Stores.exists_load {before : Value} {kept : Term → Prop}
    (h : s.Stores id p predicate before kept) (he : s.entity? id = some e) {b : Star}
    (hpresents : e.type.Presents b)
    (hrequired : ∀ c ∈ b.clauses, c.isOptional = false → e.values.terms c.name ≠ [])
    (hread : Query.read s.store.prologue (e.type.oneText (.iri e.uri)) =
      some ((Algebra.project b.body e.type.query.projected).about e.type.anchor e.uri))
    (suffixes : Suffixes) (cacheSize : Nat) (types : List EntityType) (listeners : Listeners) :
    s.get id p.name = (.ok (.single before), s) ∧
      ∃ committed found loaded o, s.commit = (.ok s.journal.changes.length, committed) ∧
        (fresh committed.store suffixes cacheSize types listeners).load e.type e.uri =
          (.ok (some found), loaded) ∧
        loaded.get found p.name = (.ok (.single (.ofTerm o)), loaded) ∧ kept o := by
  obtain ⟨found, committed, hfound, hget, hcommit, -, -, hstar⟩ := h
  obtain rfl := Option.some.inj (he.symm.trans hfound)
  obtain ⟨found, loaded, o, hload, hagain, ho⟩ :=
    hstar b hpresents hrequired hread suffixes cacheSize types listeners
  exact ⟨hget, committed, found, loaded, o, hcommit, hload, hagain, ho⟩

/-- A literal in memory is read after a commit from honest literals that are the same term, if the
store is honest, and has no other literal for the property. -/
theorem Waits.stores (h : s.Waits edits) (hhonest : s.store.graph.Honest)
    (he : s.entity? id = some e) (hsound : e.Sound) (hw : e.Writable p.name p predicate)
    (hkind : p.kind = .literal) (hone : p.isFunctional = true)
    (hterms : e.values.terms p.name = [.literal l])
    (hplace : ∀ o, Graph.holds (Edit.replay edits s.store.graph) (.stating e.uri predicate o) =
      o.memberOf [.literal l])
    (hstated : ∀ b, e.type.Presents b →
      e.type.StatedIn e.uri e.values (Edit.replay edits s.store.graph)) :
    s.Stores id p predicate (.ofTerm (.literal l))
      fun o => o.Honest ∧ (Term.literal l).same o = true := by
  obtain ⟨committed, hcommit, -, -, hgraph, hprologue, hkeeps⟩ := h.exists_commit
  have hhonest := hkeeps hhonest
  have hsame : ∀ o : Term, o.memberOf [.literal l] = true → (Term.literal l).same o = true := by
    intro o hmem
    obtain ⟨t, ht, hsame⟩ := Term.memberOf_iff.mp hmem
    obtain rfl := List.mem_singleton.mp ht
    exact Term.same_comm o _ ▸ hsame
  have hself : (Term.literal l).memberOf [.literal l] = true :=
    Term.memberOf_iff.mpr ⟨_, List.mem_singleton_self _, Term.same_refl _⟩
  have hobjects : ∀ o : Term, o.memberOf (committed.store.graph.objects (.iri e.uri)
      (.iri predicate)) = o.memberOf [.literal l] := by
    intro o
    rw [Graph.memberOf_objects, hgraph]
    exact hplace o
  refine ⟨e, committed, he, ?_, ?_, ?_, fun o ho => ⟨hhonest.objects ho, hsame o ?_⟩, ?_⟩
  · rw [get_literal he hw.property hkind, hterms, shown, hone]
    rfl
  · rw [hcommit, h.journal, List.length_map]
  · obtain ⟨o, ho, -⟩ := Term.memberOf_iff.mp ((hobjects _).trans hself)
    exact List.ne_nil_of_mem ho
  · exact (hobjects o).symm.trans (Term.memberOf_iff.mpr ⟨o, ho, Term.same_refl o⟩)
  · intro b hpresents hrequired hread suffixes cacheSize types listeners
    obtain ⟨found, loaded, values, hload, hentity, hvalues, -⟩ :=
      exists_load_selected hpresents ((hstated b hpresents).congr hgraph)
        ⟨hsound.fits, hrequired⟩ hsound.uri.1 (hprologue ▸ hread) suffixes cacheSize types listeners
    obtain ⟨hstored, hmem⟩ := hvalues p (EntityType.property_ok hw.property).1
    rw [hterms] at hmem
    obtain ⟨o, ho⟩ : ∃ o, (values.terms p.name).head? = some o := by
      obtain ⟨o, ho, -⟩ := Term.memberOf_iff.mp ((hmem _).trans hself)
      exact Option.isSome_iff_exists.mp (List.isSome_head?.mpr (List.ne_nil_of_mem ho))
    have hin := List.mem_of_mem_head? ho
    obtain ⟨u, hu, rfl⟩ := hstored o hin
    refine ⟨found, loaded, u.object, hload, ?_, hhonest u hu, hsame _ ?_⟩
    · rw [get_literal hentity hw.property hkind, shown, hone]
      simp [Entity.loaded, ho]
    · exact (hmem _).symm.trans (Term.memberOf_iff.mpr ⟨_, hin, Term.same_refl _⟩)

/-- A literal that is honest in memory reads the same from the store. -/
theorem Stores.rereads (h : s.Stores id p predicate (.ofTerm (.literal l))
    fun o => o.Honest ∧ (Term.literal l).same o = true) (hl : l.Honest) (hnumber : l.Comparable) :
    s.Rereads id p predicate :=
  ⟨_, h.imp fun _ ho => hl.twin hnumber ho.1 ho.2⟩

/-! ### Setting a property -/

section Setting

variable (h : s.Waits edits) (hhonest : s.store.graph.Honest) (hkind : p.kind = .literal)
  (hone : p.isFunctional = true) {d : Datum} (he : s.entity? id = some e) (hsound : e.Sound)
  (hw : e.Writable p.name p predicate)
  (hstated : e.type.StatedIn e.uri e.values (Edit.replay edits s.store.graph))
include h hhonest hkind hone he hsound hw hstated

/-- A property that is set to a datum is read as the literal that was chosen, if that can be
written. -/
theorem Waits.stores_set
    (hwritable : ∀ stored ⊆ e.values.terms p.name, ∀ l, p.Chosen stored (.datum d) l →
      .literal l ∈ stored ∨ l.ReadsBack) :
    ∃ stored ⊆ e.values.terms p.name, ∃ l after, p.Chosen stored (.datum d) l ∧
      s.set id p.name (.datum d) = .ok after ∧
      after.Stores id p predicate (.ofTerm (.literal l))
        fun o => o.Honest ∧ (Term.literal l).same o = true := by
  obtain ⟨stored, hsubset, l, edit, hchosen, hset, hreadable, hexchanges⟩ :=
    hw.exists_set hsound hkind hone d
  obtain ⟨after, hafter, hwrites⟩ := exists_set he hset
  have hl : (Term.literal l).Writable := by
    rcases hwritable stored hsubset l hchosen with hmem | hreads
    · exact hsound.writable hw _ (hsubset hmem)
    · exact hreads
  have hterms : ((e.holding p.name (.single (some (.literal l)))).values.terms p.name) =
      [.literal l] := by
    rw [Entity.terms_holding hsound.fits hw, if_pos rfl]
    rfl
  -- the edit exchanges the terms of the property in what the store will have
  obtain ⟨hplace, helse⟩ := hexchanges (Edit.replay edits s.store.graph) fun o => by
    rw [← Graph.memberOf_objects]
    exact hstated p (EntityType.property_ok hw.property).1 predicate hw.predicate o
  have hview : Edit.replay (edits ++ [edit]) after.store.graph =
      edit.effect (Edit.replay edits s.store.graph) := by
    rw [hwrites.store, Edit.replay_append]
    rfl
  refine ⟨stored, hsubset, l, after, hchosen, hafter,
    (h.append (hreadable hl) hwrites.journal).stores (hwrites.store ▸ hhonest)
      hwrites.entity ?_ ⟨hw.property, hw.alive, hw.predicate⟩ hkind hone hterms ?_ ?_⟩
  · refine hsound.holding hw hone.symm fun t ht => ?_
    exact List.mem_singleton.mp ht ▸ hl
  · rw [hview]
    exact hplace
  · intro b hpresents
    obtain ⟨hp, -⟩ := EntityType.property_ok hw.property
    rw [hview]
    exact hstated.holding hsound hw
      (fun q hq => hpresents.follows.eq_of_predicate hp hq) hplace helse

/-- A property that is set to a value which lasts is read again. -/
theorem Waits.rereads_set (hlasts : d.Lasts p.literalDatatype)
    (hstored : ∀ o ∈ e.values.terms p.name, o.Honest) :
    ∃ after, s.set id p.name (.datum d) = .ok after ∧ after.Rereads id p predicate := by
  have hchoice : ∀ stored ⊆ e.values.terms p.name, ∀ l, p.Chosen stored (.datum d) l →
      l.Honest ∧ l.Comparable ∧ (.literal l ∈ stored ∨ l.ReadsBack) :=
    fun stored hsubset l hchosen => hchosen.lasts hlasts fun o ho => hstored o (hsubset ho)
  obtain ⟨stored, hsubset, l, after, hchosen, hafter, hstores⟩ := h.stores_set hhonest hkind hone
    he hsound hw hstated fun stored hsubset l hl => (hchoice stored hsubset l hl).2.2
  obtain ⟨hl, hnumber, -⟩ := hchoice stored hsubset l hchosen
  exact ⟨after, hafter, hstores.rereads hl hnumber⟩

/-- Under the datatype of texts a value of another type stays what it is in memory, and is read from
the store as its text. -/
theorem Waits.stores_text (hdatatype : p.literalDatatype = some Xsd.string) (hproper : d.Proper)
    (htext : ∀ s, d ≠ .text s) (hnew : ∀ a, .literal a ∈ e.values.terms p.name →
      Property.standsFor (.datum d) a = false) :
    ∃ after, s.set id p.name (.datum d) = .ok after ∧
      after.Stores id p predicate (.datum d)
        fun o => Value.ofTerm o = .datum (.text d.lexical) := by
  have hchoice : ∀ stored ⊆ e.values.terms p.name, ∀ l, p.Chosen stored (.datum d) l →
      l = Literal.ofDatum d (some Xsd.string) :=
    fun stored hsubset l hchosen =>
      hchosen.eq_ofDatum hdatatype fun a ha => hnew a (hsubset ha)
  obtain ⟨stored, hsubset, l, after, hchosen, hafter, hstores⟩ := h.stores_set hhonest hkind hone
    he hsound hw hstated fun stored hsubset l hl =>
      Or.inr (hchoice stored hsubset l hl ▸ Literal.readsBack_string hproper htext)
  obtain rfl := hchoice stored hsubset l hchosen
  have hliteral : Literal.ofDatum d (some Xsd.string) =
      ⟨d.lexical, some Xsd.string, none, some d⟩ := by
    cases d with
    | text s => exact absurd rfl (htext s)
    | _ => rfl
  rw [hliteral] at hstores
  refine ⟨after, hafter, hstores.imp fun o ho => ?_⟩
  obtain ⟨hhonest, hsame⟩ := ho
  cases o with
  | literal a =>
      simp only [Term.same, Literal.same, Bool.and_eq_true, beq_iff_eq] at hsame
      obtain ⟨⟨hlexical, hasked⟩, -⟩ := hsame
      have hvalue := (hhonest a rfl).value_string hasked.symm
      rw [← hlexical] at hvalue
      simp only [Value.ofTerm, hvalue]
  | _ => contradiction

end Setting

/-- All live entities are sound, and stated with the edits that wait, in a session that shows them:
what lasts is read again after every set. -/
theorem Pending.rereads_set (h : s.Pending [] edits) (hidle : s.journal.committing = false)
    (hhonest : s.store.graph.Honest) (hkind : p.kind = .literal) (hone : p.isFunctional = true)
    {d : Datum} (hlasts : d.Lasts p.literalDatatype) (he : s.entity? id = some e)
    (hw : e.Writable p.name p predicate) (hstored : ∀ o ∈ e.values.terms p.name, o.Honest) :
    ∃ after, s.set id p.name (.datum d) = .ok after ∧ after.Rereads id p predicate :=
  (h.waits hidle).rereads_set hhonest hkind hone he (h.wellFormed id e he hw.alive) hw
    (h.shown.statedIn he hw.alive) hlasts hstored

/-! ### Creating an entity -/

/-- A property that a creation is given a value for which lasts is read again. -/
theorem Waits.rereads_create (h : s.Waits edits) (hhonest : s.store.graph.Honest)
    (hkind : p.kind = .literal) (hone : p.isFunctional = true) {d : Datum}
    (hlasts : d.Lasts p.literalDatatype) {t : EntityType} (hspelled : t.Spelled)
    (hp : p ∈ t.properties) (hpredicate : p.predicate = some predicate)
    (hown : ∀ q ∈ t.properties, q.predicate = some predicate → q = p)
    (huri : ValidIri (s.freshIri t))
    (hfresh : ∀ u ∈ Edit.replay edits s.store.graph, u.subject ≠ .iri (s.freshIri t))
    {vs : InitialValues} (hvalue : vs.value? p.name = some (.datum d))
    (hothers : ∀ q ∈ t.properties, q ≠ p → ∀ v o, vs.Supplies q v → q.toTerm v = .ok o →
      o.Writable)
    (hcreate : s.create t vs = (.ok id, after)) : after.Rereads id p predicate := by
  have hregular := hspelled.mapped.regular
  have hchosen : ∀ o, p.toTerm (.datum d) = .ok o → ∃ l, o = .literal l ∧ l.Honest ∧
      l.Comparable ∧ l.ReadsBack := by
    intro o ho
    have hnone : ∀ a, Term.literal a ∈ ([] : List Term) →
        Property.standsFor (.datum d) a = false := fun _ ha => absurd ha List.not_mem_nil
    obtain ⟨l, rfl, hchosen⟩ := Property.chosen_of_toTerm hkind hnone ho
    obtain ⟨hl, hnumber, hreads⟩ := hchosen.lasts hlasts (by simp)
    exact ⟨l, rfl, hl, hnumber, hreads.resolve_left List.not_mem_nil⟩
  obtain ⟨drafted, hdraft, rfl, rfl⟩ := create_ok hcreate
  let c : Creation := ⟨t, s.freshIri t, vs, drafted, hspelled.mapped, hdraft⟩
  have hreadable : c.Readable := by
    refine ⟨hspelled.anchor, hspelled.names, huri, hspelled.predicates, fun q hq v o hv ho => ?_⟩
    by_cases hqp : q = p
    · subst hqp
      obtain rfl := hv.eq_of_value hone hvalue
      obtain ⟨l, rfl, -, -, hreads⟩ := hchosen o ho
      exact hreads
    · exact hothers q hq hqp v o hv ho
  have hwritable : p.isWritable = true := Option.isSome_iff_exists.mpr ⟨_, hpredicate⟩
  obtain ⟨o, ho, hterms⟩ :=
    (EntityType.shows_of_draft hregular hdraft).exists_term hp hwritable hone hvalue
  obtain ⟨l, rfl, hl, hnumber, -⟩ := hchosen o ho
  have hstore : (s.afterCreation t drafted).store = s.store := record_store _ _ _
  have hwaits : (s.afterCreation t drafted).Waits (edits ++ [.create c]) :=
    h.append hreadable (record_journal _ _ _)
  have hview : Edit.replay (edits ++ [.create c]) (s.afterCreation t drafted).store.graph =
      (Edit.replay edits s.store.graph).insertAll (t.triplesOf (s.freshIri t) drafted.state) := by
    rw [hstore, Edit.replay_append]
    rfl
  refine (hwaits.stores (hstore ▸ hhonest)
    ((entity?_afterCreation s t drafted _).trans (if_pos rfl)) (Entity.sound_created c hreadable)
    ⟨hregular.property_eq hp, rfl, hpredicate⟩ hkind hone hterms ?_ ?_).rereads hl hnumber
  · intro o
    have hbefore : Graph.holds (Edit.replay edits s.store.graph)
        (.stating (s.freshIri t) predicate o) = false := holds_fresh hfresh _ _
    rw [hview, Graph.holds_insertAll, ← hterms]
    exact (congrArg (· || _) hbefore).trans
      ((Bool.false_or _).trans (any_triplesOf_place hp hpredicate hown o))
  · intro b hpresents
    rw [hview]
    exact hpresents.follows.statedIn_insertAll hfresh drafted

/-- What a property of literals is written is what is read of it, before the commit and after it, if
the value is of the type of the declared datatype, or a text.  The property is set, beside honest
literals, for an entity that the store states with what waits; or a creation is given its value,
beside other values that can be written.  Other edits may wait to be committed with it. -/
theorem rereads_of_write (h : s.Waits edits) (hhonest : s.store.graph.Honest)
    (hkind : p.kind = .literal) (hone : p.isFunctional = true) {d : Datum}
    (hlasts : d.Lasts p.literalDatatype) :
    (∀ id e predicate, s.entity? id = some e → e.Sound → e.Writable p.name p predicate →
      e.type.StatedIn e.uri e.values (Edit.replay edits s.store.graph) →
      (∀ o ∈ e.values.terms p.name, o.Honest) →
      ∃ after, s.set id p.name (.datum d) = .ok after ∧ after.Rereads id p predicate) ∧
    ∀ t vs id predicate after, t.Spelled → p ∈ t.properties → p.predicate = some predicate →
      (∀ q ∈ t.properties, q.predicate = some predicate → q = p) → ValidIri (s.freshIri t) →
      (∀ u ∈ Edit.replay edits s.store.graph, u.subject ≠ .iri (s.freshIri t)) →
      vs.value? p.name = some (.datum d) →
      (∀ q ∈ t.properties, q ≠ p → ∀ v o, vs.Supplies q v → q.toTerm v = .ok o → o.Writable) →
      s.create t vs = (.ok id, after) → after.Rereads id p predicate := by
  constructor
  · intro id e predicate he hsound hw hstated hstored
    exact h.rereads_set hhonest hkind hone he hsound hw hstated hlasts hstored
  · intro t vs id predicate after hspelled hp hpredicate hown huri hfresh hvalue hothers hcreate
    exact h.rereads_create hhonest hkind hone hlasts hspelled hp hpredicate hown huri hfresh hvalue
      hothers hcreate

/-! Notes whose sizes are declared to be decimal numbers, or texts. -/

def sizedStar : Star where
  anchor := "note"
  clauses := [⟨"http://e/size", "size", false⟩]
  names := by decide
  predicates := by decide
  required := ⟨⟨"http://e/size", "size", false⟩, by decide, rfl⟩

def sizedText : String :=
  "SELECT ?note ?size WHERE \x7b ?note <http://e/size> ?size \x7d"

def sizeProperty (datatype : String) : Property :=
  ⟨"size", .literal, .one, some "http://e/size", datatype⟩

def sizedType (datatype : String) : EntityType where
  name := "Note"
  query := ⟨sizedText, "", sizedText, ["note", "size"],
    .ofAlgebra (.project sizedStar.body ["note", "size"])⟩
  anchor := "note"
  namespaceIri := "http://e/"
  properties := [sizeProperty datatype]
  synthesis := ⟨"note", [("size", ⟨true, false, datatype, false, some "http://e/size"⟩)]⟩

def sizedNote (datatype : String) (size : Literal) : Entity :=
  .loaded (sizedType datatype) "http://e/n1" [("size", .single (some (.literal size)))]

/-- A session with one note, whose size is stored. -/
def sizedSession (datatype : String) (size : Literal) : Session MemoryStore :=
  { ofStore { MemoryStore.empty with graph :=
      [.stating "http://e/n1" "http://e/size" (.literal size)] } (.ofSequence toString) 4 with
    entities := [sizedNote datatype size] }

theorem ofStar_sized (datatype : String) : (sizedType datatype).OfStar sizedStar where
  made := ⟨"Note", none, "http://e/", ⟨[], [], [("http://e/size", datatype)]⟩, rfl⟩
  anchor := rfl
  pattern := rfl
  projected n := by simp [sizedType, sizedStar]

theorem spelled_sized (datatype : String) : (sizedType datatype).Spelled where
  mapped := (ofStar_sized datatype).mapped
  anchor := (Piece.isSlotName_of_all rfl rfl : IsSlot "note")
  names p hp := by
    obtain rfl := List.mem_singleton.mp hp
    exact (Piece.isSlotName_of_all rfl rfl : IsSlot "size")
  predicates p hp predicate hpredicate := by
    obtain rfl := List.mem_singleton.mp hp
    obtain rfl := Option.some.inj hpredicate
    exact validIri_of_all rfl rfl

theorem waits_sized (datatype : String) (size : Literal) :
    (sizedSession datatype size).Waits [] where
  journal := rfl
  readable _ h := absurd h List.not_mem_nil

theorem sound_sized (datatype : String) {size : Literal} (hsize : size.ReadsBack) :
    (sizedNote datatype size).Sound where
  mapped := (spelled_sized datatype).mapped
  fits := ⟨rfl, fun p hp => by obtain rfl := List.mem_singleton.mp hp; rfl⟩
  uri := (validIri_of_all rfl rfl : ValidIri "http://e/n1")
  predicates := (spelled_sized datatype).predicates
  terms p hp _ t ht := by
    obtain rfl := List.mem_singleton.mp hp
    obtain rfl := List.mem_singleton.mp ht
    exact hsize

theorem statedIn_sized (datatype : String) (size : Literal) :
    (sizedType datatype).StatedIn "http://e/n1" (sizedNote datatype size).values
      (sizedSession datatype size).store.graph := by
  intro p hp predicate hpredicate o
  obtain rfl := List.mem_singleton.mp hp
  obtain rfl := Option.some.inj hpredicate
  rfl

theorem honest_sized {datatype : String} {size : Literal} (hsize : size.Honest) :
    (sizedSession datatype size).store.graph.Honest := by
  intro u hu l hl
  obtain rfl := List.mem_singleton.mp hu
  obtain rfl := Term.literal.inj hl
  exact hsize

theorem read_sized (datatype : String) : Query.read MemoryStore.empty.prologue
    ((sizedType datatype).oneText (.iri "http://e/n1")) =
      some ((Algebra.project sizedStar.body (sizedType datatype).query.projected).about "note"
        "http://e/n1") := by cbv

/-- One and a half, and two and a half with a zero behind. -/
def small : Datum := .decimal (.finite false 15 (-1))

def large : Datum := .decimal (.finite false 250 (-2))

theorem lasts_small : small.Lasts (some Xsd.decimal) :=
  Datum.Lasts.of_isOf (d := small) trivial rfl rfl fun _ hs => nomatch hs

theorem lasts_large : large.Lasts (some Xsd.decimal) :=
  Datum.Lasts.of_isOf (d := large) trivial rfl rfl fun _ hs => nomatch hs

theorem lasts_letter : (Datum.text "a").Lasts (some Xsd.string) := by
  have hlegible : Legible "a".toList := legible_of_all rfl
  exact Datum.Lasts.of_isOf (d := .text "a") trivial rfl (Or.inl rfl) fun s hs =>
    Datum.text.inj hs ▸ hlegible

def smallSession : Session MemoryStore :=
  sizedSession Xsd.decimal (Literal.ofDatum small (some Xsd.decimal))

/-- The session in which the size of the note was set. -/
def resized (s : Session MemoryStore) (size : Datum) : Session MemoryStore :=
  (Mutation.set 0 "size" (.datum size)).run s

theorem rereads_of_write_sized :
    let written := resized smallSession large
    let created := (smallSession.create (sizedType Xsd.decimal) [("size", .datum large)]).2
    (smallSession.set 0 "size" (.datum large) = .ok written ∧
      written.get 0 "size" = (.ok (.single (.datum large)), written) ∧
      ∃ committed found loaded again, written.commit = (.ok 1, committed) ∧
        (fresh committed.store (.ofSequence toString) 1 [] []).load (sizedType Xsd.decimal)
          "http://e/n1" = (.ok (some found), loaded) ∧
        loaded.get found "size" = (.ok (.single again), loaded) ∧
        (Value.datum large).twin again = true) ∧
    smallSession.create (sizedType Xsd.decimal) [("size", .datum large)] = (.ok 1, created) ∧
      created.Rereads 1 (sizeProperty Xsd.decimal) "http://e/size" := by
  intro written created
  obtain ⟨hset, hcreate⟩ := rereads_of_write (s := smallSession) (waits_sized Xsd.decimal _)
    (honest_sized lasts_small.honest) (p := sizeProperty Xsd.decimal) rfl rfl lasts_large
  constructor
  · have hwritten : smallSession.set 0 "size" (.datum large) = .ok written := rfl
    obtain ⟨found, hfound, before, hstores⟩ := hset 0 _ "http://e/size" rfl
      (sound_sized _ lasts_small.readsBack) ⟨rfl, rfl, rfl⟩ (statedIn_sized _ _)
      fun o ho l hl => by
        obtain rfl := List.mem_singleton.mp ho
        obtain rfl := Term.literal.inj hl
        exact lasts_small.honest
    obtain rfl := Except.ok.inj (hwritten.symm.trans hfound)
    obtain ⟨hget, committed, found, loaded, o, hcommit, hload, hagain, ho⟩ :=
      hstores.exists_load rfl (ofStar_sized Xsd.decimal).presents (by decide)
        (read_sized Xsd.decimal) (.ofSequence toString) 1 [] []
    have hshows : written.get 0 "size" = (.ok (.single (.datum large)), written) := rfl
    obtain rfl := PropertyValue.single.inj (Except.ok.inj
      (congrArg Prod.fst (hget.symm.trans hshows)))
    exact ⟨hwritten, hshows, committed, found, loaded, _, hcommit, hload, hagain, ho⟩
  · have hcreated : smallSession.create (sizedType Xsd.decimal) [("size", .datum large)] =
        (.ok 1, created) := rfl
    have huri : ValidIri "http://e/note0" := validIri_of_all rfl rfl
    have hown : ∀ q ∈ (sizedType Xsd.decimal).properties, q.predicate = some "http://e/size" →
        q = sizeProperty Xsd.decimal := fun q hq _ => List.mem_singleton.mp hq
    exact ⟨hcreated, hcreate _ _ _ "http://e/size" _ (spelled_sized Xsd.decimal)
      (List.mem_singleton_self _) rfl hown huri (by decide) rfl
      (fun q hq hne => absurd (List.mem_singleton.mp hq) hne) hcreated⟩

/-- A number that is set under the datatype of texts is read as a number before the commit, and as a
text after it. -/
theorem number_is_reread_as_text :
    let s := sizedSession Xsd.string (.typed "a" Xsd.string)
    let written := resized s (.integer 7)
    s.set 0 "size" (.datum (.integer 7)) = .ok written ∧
      written.get 0 "size" = (.ok (.single (.datum (.integer 7))), written) ∧
      ∃ committed found loaded, written.commit = (.ok 1, committed) ∧
        (fresh committed.store (.ofSequence toString) 1 [] []).load (sizedType Xsd.string)
          "http://e/n1" = (.ok (some found), loaded) ∧
        loaded.get found "size" = (.ok (.single (.datum (.text "7"))), loaded) ∧
        (Value.datum (.integer 7)).twin (.datum (.text "7")) = false := by
  intro s written
  have hwritten : s.set 0 "size" (.datum (.integer 7)) = .ok written := rfl
  have hnew : ∀ a, .literal a ∈ [Term.literal (.typed "a" Xsd.string)] →
      Property.standsFor (.datum (.integer 7)) a = false := fun a ha => by
    obtain rfl := Term.literal.inj (List.mem_singleton.mp ha)
    decide
  have hw : (sizedNote Xsd.string (.typed "a" Xsd.string)).Writable "size"
      (sizeProperty Xsd.string) "http://e/size" := ⟨rfl, rfl, rfl⟩
  have he : s.entity? 0 = some (sizedNote Xsd.string (.typed "a" Xsd.string)) := rfl
  obtain ⟨found, hfound, hstores⟩ := (waits_sized Xsd.string (.typed "a" Xsd.string)).stores_text
    (p := sizeProperty Xsd.string) (d := .integer 7) (honest_sized lasts_letter.honest) rfl rfl he
    (sound_sized _ lasts_letter.readsBack) hw (statedIn_sized _ _) rfl trivial (by simp) hnew
  obtain rfl := Except.ok.inj (hwritten.symm.trans hfound)
  obtain ⟨hget, committed, found, loaded, o, hcommit, hload, hagain, ho⟩ :=
    hstores.exists_load rfl (ofStar_sized Xsd.string).presents (by decide)
      (read_sized Xsd.string) (.ofSequence toString) 1 [] []
  rw [ho] at hagain
  exact ⟨hwritten, hget, committed, found, loaded, hcommit, hload, hagain, rfl⟩

end Session

end EntityMapping
