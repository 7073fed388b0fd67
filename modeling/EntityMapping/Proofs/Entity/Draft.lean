import EntityMapping.Entity.Creation
import EntityMapping.Proofs.Change.Founded
import EntityMapping.Proofs.Change.Update
import EntityMapping.Proofs.Entity.Type

/-!
What a creation writes.

The update of a creation adds, to every graph, exactly the triples of the first state of the entity.
The mandatory values go into one insertion and every other value into one of its own, so the state
and the update grow together, value by value.
-/

namespace EntityMapping

open Sparql (Prologue TriplePattern Update UpdateStep)
open Sparql.Grammar (Names Naming Reading Reads ReadsStep Says Sentences)
open Sparql.Lexer (IsGap Spells)
open Sparql.Update (Carries)

/-! ### Sentences about one entity -/

/-- Statements about one entity, each with a point behind it, in front of a text. -/
def sentences (uri : String) : List (String × Term) → List Char → List Char
  | [], rest => rest
  | (predicate, o) :: facts, rest =>
    (Term.iri uri).n3.toList ++ ' ' :: ((Term.iri predicate).n3.toList ++ ' ' ::
      (o.n3.toList ++ ' ' :: (['.'] ++ ' ' :: sentences uri facts rest)))

/-- The triples of such statements. -/
def factTriples (uri : String) (facts : List (String × Term)) : List Triple :=
  facts.map fun (predicate, o) => ⟨.iri uri, .iri predicate, o⟩

variable {env : Prologue} {uri : String} {facts : List (String × Term)}

theorem spells_sentences (hbase : env.base = none) (huri : ValidIri uri)
    (hfacts : ∀ fact ∈ facts, ValidIri fact.1 ∧ fact.2.Writable) :
    ∃ ts triples, Spells (sentences uri facts ['\x7d']) (ts ++ [.sign "\x7d"]) ∧
      Sentences env ts triples ∧ (∀ q ∈ triples, Sparql.Named q ∧ q.object.Honest) ∧
      ∀ u : Triple, (triples.filterMap TriplePattern.triple?).any u.same =
        (factTriples uri facts).any u.same := by
  induction facts with
  | nil =>
      exact ⟨[], [], Sparql.Lexer.spells_closing, .nil, by simp, fun u => rfl⟩
  | cons fact facts ih =>
      obtain ⟨predicate, o⟩ := fact
      obtain ⟨hpredicate, ho⟩ := hfacts _ List.mem_cons_self
      obtain ⟨ts, triples, hspell, hsentences, hnamed, hsame⟩ :=
        ih fun fact hfact => hfacts fact (List.mem_cons_of_mem _ hfact)
      obtain ⟨subjectToken, hsubjectSpell, hsubject⟩ := Change.names_iri hbase huri
      obtain ⟨predicateToken, hpredicateSpell, hpredicateName⟩ :=
        Change.names_iri hbase hpredicate
      obtain ⟨read, ⟨os, hoSpell, hoRead⟩, hground, hhonest, hread⟩ :=
        Change.says_writable hbase ho
      have hspace : IsGap ' ' := Or.inl rfl
      have hall := hsubjectSpell.append (hpredicateSpell.append (hoSpell.append
        (Sparql.Lexer.spells_point.append hspell hspace) hspace) hspace) hspace
      refine ⟨_, _, ?_, .cons hsubject hpredicateName hoRead hsentences, ?_, ?_⟩
      · simpa only [sentences, List.append_assoc, List.cons_append, List.nil_append] using hall
      · intro q hq
        rcases List.mem_cons.mp hq with rfl | hq
        · exact ⟨.plain (Sparql.Ground.iri uri).noBlank (Sparql.Ground.iri predicate).noBlank
            hground.noBlank, hhonest⟩
        · exact hnamed q hq
      · intro u
        have hfirst := Triple.same_right
          (Change.same_triple (s := .iri uri) (p := .iri predicate) hread) u
        have hmore := hsame u
        simp only [factTriples] at hmore
        simp [factTriples, TriplePattern.triple?, TriplePattern.plain, hfirst, hmore]

/-- An insertion of several statements. -/
def insertion (uri : String) (facts : List (String × Term)) : List Char :=
  "INSERT".toList ++ ' ' :: ("DATA".toList ++ ' ' ::
    (['\x7b'] ++ ' ' :: sentences uri facts ['\x7d']))

theorem reads_insertion (hbase : env.base = none) (huri : ValidIri uri)
    (hfacts : ∀ fact ∈ facts, ValidIri fact.1 ∧ fact.2.Writable) :
    ∃ steps, Reads env (insertion uri facts) steps ∧
      Carries steps fun g => g.insertAll (factTriples uri facts) := by
  obtain ⟨ts, triples, hspell, hsentences, hnamed, hsame⟩ := spells_sentences hbase huri hfacts
  have hspace : IsGap ' ' := Or.inl rfl
  have hall := Sparql.Lexer.spells_insert.append (Sparql.Lexer.spells_data.append
    (Sparql.Lexer.spells_opening.append hspell hspace) hspace) hspace
  refine ⟨[.insertData triples], .one hall ⟨Or.inl rfl, fun rest => ?_⟩, ?_, ?_, ?_⟩
  · have hread := Sparql.Grammar.updateStep_insertData
      (Sparql.Grammar.template_sentences hsentences rest)
    simpa only [List.append_assoc, List.cons_append, List.nil_append] using hread
  · intro step hstep
    rw [List.mem_singleton.mp hstep]
    exact fun q hq => (hnamed q hq).1
  · intro step hstep
    rw [List.mem_singleton.mp hstep]
    exact fun q hq => (hnamed q hq).2
  · intro g h hgh u
    rw [Update.applyAll_singleton, UpdateStep.holds_insertData fun q hq => (hnamed q hq).1,
      Graph.holds_insertAll,
      hgh u, hsame u]

/-! ### Filled sentences -/

theorem isIriBreaker_of_valid {s : String} (h : ValidIri s) : ∀ c ∈ s.toList,
    isIriBreaker c = false := by
  intro c hc
  have hcheck := h.1
  unfold checkIri at hcheck
  split at hcheck
  · contradiction
  · next hany =>
      rw [Bool.or_eq_true, not_or] at hany
      by_contra hbreak
      exact hany.2 (List.any_eq_true.mpr ⟨c, hc, by simpa using hbreak⟩)

/-- A name that the anchor or a property may have: a slot as a whole. -/
def IsSlot (name : String) : Prop :=
  Piece.IsSlotName name.toList

variable {bindings : List (String × Term)} {anchor name predicate : String} {o : Term}

theorem filled_bound (hname : IsSlot name) (hbound : bindings.lookup name = some o)
    {rest : List Char} (hrest : rest.head?.any Piece.isSlotPart = false) :
    Piece.filled bindings ('?' :: name.toList ++ rest) =
      o.n3.toList ++ Piece.filled bindings rest := by
  rw [Piece.filled_slot (Or.inl rfl) hname hrest, Piece.fill_bound (by rwa [String.ofList_toList])]

theorem filled_tripleText {s : Synthesis} {text : String} (hanchor : IsSlot s.anchor)
    (hname : IsSlot name) (hpredicate : ValidIri predicate)
    (hsubject : bindings.lookup s.anchor = some (.iri uri))
    (hobject : bindings.lookup name = some o)
    (htext : s.tripleText name predicate = .ok text) (rest : List Char) :
    Piece.filled bindings (text.toList ++ rest) =
      (Term.iri uri).n3.toList ++ ' ' :: ((Term.iri predicate).n3.toList ++ ' ' ::
        (o.n3.toList ++ ' ' :: (['.'] ++ Piece.filled bindings rest))) := by
  obtain ⟨iri, hiri, htext⟩ := bind_eq_ok.mp htext
  rw [hpredicate.1] at hiri
  obtain rfl := Except.ok.inj hiri
  obtain rfl := pure_eq_ok.mp htext
  have hlist : ("?" ++ s.anchor ++ " " ++ (Term.iri predicate).n3 ++ " ?" ++ name ++ " .").toList
      ++ rest = '?' :: s.anchor.toList ++ ([' '] ++ ('<' :: predicate.toList ++ '>' :: ([' '] ++
        ('?' :: name.toList ++ ([' ', '.'] ++ rest))))) := by
    simp [Term.n3]
  have hiri : (Term.iri predicate).n3.toList = '<' :: predicate.toList ++ ['>'] := by
    simp [Term.n3]
  rw [hlist, filled_bound hanchor hsubject rfl, Piece.filled_plain rfl,
    Piece.filled_iri (isIriBreaker_of_valid hpredicate), Piece.filled_plain rfl,
    filled_bound hname hobject rfl, Piece.filled_plain rfl, hiri]
  simp

/-- What the sentences of some properties are about. -/
def factsOf (o : String → Term) (ps : List Property) : List (String × Term) :=
  ps.map fun p => (p.predicate.getD "", o p.name)

/-- The statements of a template, filled. -/
theorem filled_triples {s : Synthesis} {ps : List Property} {texts : List String}
    {o : String → Term} (hanchor : IsSlot s.anchor)
    (hsubject : bindings.lookup s.anchor = some (.iri uri))
    (hps : ∀ p ∈ ps, IsSlot p.name ∧ ValidIri (p.predicate.getD "") ∧
      bindings.lookup p.name = some (o p.name)) (hne : ps ≠ [])
    (htexts : ps.mapM (fun p => s.tripleText p.name (p.predicate.getD "")) = .ok texts) :
    texts ≠ [] ∧ Piece.filled bindings ((" ".intercalate texts).toList ++ [' ', '\x7d']) =
      sentences uri (factsOf o ps) ['\x7d'] := by
  replace htexts := forall₂_of_mapM htexts
  induction htexts with
  | nil => exact absurd rfl hne
  | @cons p text ps more htext hmore ih =>
      obtain ⟨hname, hpredicate, hobject⟩ := hps p List.mem_cons_self
      have hfirst := filled_tripleText hanchor hname hpredicate hsubject hobject htext
      refine ⟨List.cons_ne_nil _ _, ?_⟩
      by_cases hnil : ps = []
      · subst hnil
        obtain rfl := List.forall₂_nil_left_iff.mp hmore
        have hend : Piece.filled bindings [' ', '\x7d'] = [' ', '\x7d'] := rfl
        rw [String.intercalate_singleton, hfirst, hend]
        rfl
      · obtain ⟨hmoreNe, hrest⟩ :=
          ih (fun q hq => hps q (List.mem_cons_of_mem _ hq)) hnil
        rw [String.intercalate_cons_of_ne_nil hmoreNe, String.toList_append, String.toList_append,
          List.append_assoc, List.append_assoc, hfirst]
        have hspace : ∀ cs, Piece.filled bindings (" ".toList ++ cs) =
            ' ' :: Piece.filled bindings cs := fun cs =>
          @Piece.filled_plain bindings [' '] rfl cs
        rw [hspace, hrest]
        rfl

theorem filled_insertion {s : Synthesis} {ps : List Property} {texts : List String}
    {o : String → Term} (hanchor : IsSlot s.anchor)
    (hsubject : bindings.lookup s.anchor = some (.iri uri))
    (hps : ∀ p ∈ ps, IsSlot p.name ∧ ValidIri (p.predicate.getD "") ∧
      bindings.lookup p.name = some (o p.name)) (hne : ps ≠ [])
    (htexts : ps.mapM (fun p => s.tripleText p.name (p.predicate.getD "")) = .ok texts) :
    texts ≠ [] ∧ Piece.filled bindings
      ("INSERT DATA \x7b " ++ " ".intercalate texts ++ " \x7d").toList =
        insertion uri (factsOf o ps) := by
  obtain ⟨htextsNe, hinner⟩ := filled_triples hanchor hsubject hps hne htexts
  have hlist : ("INSERT DATA \x7b " ++ " ".intercalate texts ++ " \x7d").toList =
      "INSERT DATA \x7b ".toList ++ ((" ".intercalate texts).toList ++ [' ', '\x7d']) := by
    rw [String.toList_append, String.toList_append, List.append_assoc]
    rfl
  rw [hlist, Piece.filled_plain rfl, hinner]
  exact ⟨htextsNe, rfl⟩

theorem filled_insertion_nil : Piece.filled bindings "INSERT DATA \x7b \x7d".toList =
    insertion uri [] := rfl

/-! ### Values that are given -/

/-- The values that a creation finds for a property. -/
inductive InitialValues.Supplies (vs : InitialValues) (p : Property) : Value → Prop where
  | mandatory {v : Value} (hone : p.multiplicity = .one) (hv : vs.value? p.name = some v) :
      Supplies vs p v
  | item {items : List Value} {v : Value} (hone : p.multiplicity ≠ .one)
      (hitems : p.supplied (vs.value? p.name) = .ok items) (hv : v ∈ items) : Supplies vs p v

theorem setTerm_ok {t after : Template} {v : Term} (h : t.setTerm name v = .ok after) :
    after = t.bind name v := by
  obtain ⟨term, hterm, h⟩ := bind_eq_ok.mp h
  obtain rfl := pure_eq_ok.mp h
  cases v with
  | iri s =>
      have hcheck : checkIri s = .ok term := hterm
      unfold checkIri at hcheck
      split at hcheck
      · contradiction
      · rw [Except.ok.inj hcheck]
  | literal l => rw [Except.ok.inj hterm]
  | blank label => contradiction
  | var other => contradiction

namespace EntityType

variable {t : EntityType} {vs : InitialValues}

/-- Binding the mandatory properties binds each of them to the term of its value, and nothing
else. -/
theorem bindMandatory_ok {names : List String} {template after : Template}
    {state final : EntityState} (hnames : names.Nodup)
    (h : t.bindMandatory vs names template state = .ok (after, final)) :
    ∃ o : String → Term,
      (∀ name ∈ names, after.bindings.lookup name = some (o name) ∧
        ∃ p v, t.property name = .ok p ∧ vs.value? name = some v ∧ p.toTerm v = .ok (o name)) ∧
      (∀ name, name ∉ names → after.bindings.lookup name = template.bindings.lookup name) ∧
      after.text = template.text ∧
      final = names.foldl (fun s name => s.insert name (o name)) state := by
  induction names generalizing template state with
  | nil =>
      obtain ⟨rfl, rfl⟩ := Prod.mk.inj (Except.ok.inj h)
      exact ⟨fun _ => .var "", by simp, by simp, rfl, rfl⟩
  | cons name names ih =>
      rw [List.nodup_cons] at hnames
      simp only [bindMandatory] at h
      cases hvalue : vs.value? name with
      | none => simp [hvalue] at h
      | some v =>
          simp only [hvalue] at h
          obtain ⟨p, hp, h⟩ := bind_eq_ok.mp h
          obtain ⟨term, hterm, h⟩ := bind_eq_ok.mp h
          obtain ⟨next, hnext, h⟩ := bind_eq_ok.mp h
          obtain rfl := setTerm_ok hnext
          obtain ⟨o, hbound, hother, htext, hfinal⟩ := ih hnames.2 h
          refine ⟨fun n => if n = name then term else o n, ?_, ?_, htext, ?_⟩
          · intro n hn
            rcases List.mem_cons.mp hn with rfl | hn
            · refine ⟨?_, p, v, hp, hvalue, by simpa using hterm⟩
              rw [hother n hnames.1, Template.lookup_bind, if_pos rfl]
              simp
            · have hne : n ≠ name := fun heq => hnames.1 (heq ▸ hn)
              simpa [hne] using hbound n hn
          · intro n hn
            rw [List.mem_cons, not_or] at hn
            rw [hother n hn.2, Template.lookup_bind, if_neg hn.1]
          · rw [hfinal, List.foldl_cons]
            simp only [if_true]
            apply List.foldl_ext _ _ _
            intro s n hn
            have hne : n ≠ name := fun heq => hnames.1 (heq ▸ hn)
            simp [hne]

/-! ### Drafts -/

/-- A creation of which everything can be written: the names are slots, the IRIs may stand in
brackets, and the terms of the values are read as themselves.  Templates may still refuse a
predicate; then no value is written with it. -/
structure Writes (t : EntityType) (uri : String) (vs : InitialValues) : Prop where
  regular : t.Regular
  anchor : IsSlot t.anchor
  names : ∀ p ∈ t.properties, IsSlot p.name
  uri : ValidIri uri
  predicates : ∀ p ∈ t.properties, ∀ predicate, p.predicate = some predicate →
    ∀ c ∈ predicate.toList, Sparql.Lexer.isIriChar c = true
  terms : ∀ p ∈ t.properties, ∀ v o, vs.Supplies p v → p.toTerm v = .ok o → o.Writable

/-- A draft whose update adds exactly the triples of its state. -/
structure Drafted (env : Prologue) (t : EntityType) (uri : String) (d : Draft) : Prop where
  fits : EntityState.Fits t.properties d.state
  writable : ∀ p ∈ t.properties, ∀ o ∈ d.state.terms p.name, o.Writable
  nonempty : d.updates ≠ []
  performs : Change.Performs env (Change.separator.intercalate d.updates) fun g =>
    g.insertAll (t.triplesOf uri d.state)

/-- The state that the mandatory values give. -/
theorem any_triplesOf_mandatory (uri : String) (hnames : (t.properties.map Property.name).Nodup)
    {o : String → Term} {ps : List Property} (hps : ∀ p ∈ ps, p ∈ t.properties ∧ p.isWritable)
    (hdistinct : (ps.map Property.name).Nodup) {s : EntityState} (hfits : s.Fits t.properties)
    (hroom : ∀ p ∈ ps, s.terms p.name = []) :
    (ps.foldl (fun s p => s.insert p.name (o p.name)) s).Fits t.properties ∧
      (∀ name, name ∉ ps.map Property.name →
        (ps.foldl (fun s p => s.insert p.name (o p.name)) s).terms name = s.terms name) ∧
      ∀ u : Triple,
        (t.triplesOf uri (ps.foldl (fun s p => s.insert p.name (o p.name)) s)).any u.same =
          ((t.triplesOf uri s).any u.same || (factTriples uri (factsOf o ps)).any u.same) := by
  induction ps generalizing s with
  | nil => exact ⟨hfits, fun _ _ => rfl, fun u => (Bool.or_false _).symm⟩
  | cons p ps ih =>
      obtain ⟨hp, hwritable⟩ := hps p List.mem_cons_self
      obtain ⟨predicate, hpredicate⟩ := Option.isSome_iff_exists.mp hwritable
      rw [List.map_cons, List.nodup_cons] at hdistinct
      have hterms := EntityState.terms_insert (hfits.mem hp) (o p.name)
      have hother : ∀ name, name ≠ p.name → (s.insert p.name (o p.name)).terms name =
          s.terms name := fun name hname => by rw [hterms, if_neg hname]
      obtain ⟨hfinal, hkept, hany⟩ := ih
        (fun q hq => hps q (List.mem_cons_of_mem _ hq)) hdistinct.2
        (hfits.insert hp hnames (o p.name)) (fun q hq => by
          rw [hother q.name fun heq => hdistinct.1 (heq ▸ List.mem_map_of_mem hq)]
          exact hroom q (List.mem_cons_of_mem _ hq))
      refine ⟨hfinal, fun name hname => ?_, fun u => ?_⟩
      · rw [List.map_cons, List.mem_cons, not_or] at hname
        exact (hkept name hname.2).trans (hother name hname.1)
      · have hfirst := any_triplesOf_insert uri hnames hfits hp hpredicate
          (fun _ => hroom p List.mem_cons_self) (o p.name) u
        rw [List.foldl_cons, hany u, hfirst, Bool.or_assoc]
        simp [factsOf, factTriples, hpredicate]

theorem mem_terms_mandatory (hnames : (t.properties.map Property.name).Nodup)
    {o : String → Term} {ps : List Property} (hps : ∀ p ∈ ps, p ∈ t.properties)
    {s : EntityState} (hfits : s.Fits t.properties) {name : String} {u : Term}
    (hu : u ∈ (ps.foldl (fun s p => s.insert p.name (o p.name)) s).terms name) :
    (∃ p ∈ ps, u = o p.name) ∨ u ∈ s.terms name := by
  induction ps generalizing s with
  | nil => exact Or.inr hu
  | cons p ps ih =>
      have hp := hps p List.mem_cons_self
      rcases ih (fun q hq => hps q (List.mem_cons_of_mem _ hq)) (hfits.insert hp hnames _) hu with
        ⟨q, hq, rfl⟩ | hu
      · exact Or.inl ⟨q, List.mem_cons_of_mem _ hq, rfl⟩
      · rcases EntityState.mem_terms_insert (hfits.mem hp) hu with rfl | hu
        · exact Or.inl ⟨p, List.mem_cons_self, rfl⟩
        · exact Or.inr hu

theorem creation_ok (h : t.Regular) {text : String} (htext : t.synthesis.creation = .ok text) :
    ∃ texts, t.mandatoryProperties.mapM (fun p =>
        t.synthesis.tripleText p.name (p.predicate.getD "")) = .ok texts ∧
      text = if texts.isEmpty then "INSERT DATA \x7b \x7d"
        else "INSERT DATA \x7b " ++ " ".intercalate texts ++ " \x7d" := by
  obtain ⟨texts, htexts, htext⟩ := bind_eq_ok.mp htext
  rw [h.mandatoryTriples_eq] at htexts
  exact ⟨texts, htexts, (pure_eq_ok.mp htext).symm⟩

theorem checkIri_of_tripleText {s : Synthesis} {name predicate text : String}
    (h : s.tripleText name predicate = .ok text) : checkIri predicate = .ok (.iri predicate) := by
  obtain ⟨iri, hiri, -⟩ := bind_eq_ok.mp h
  obtain ⟨rfl, -⟩ := checkIri_ok hiri
  exact hiri

theorem mem_mandatoryProperties {p : Property} (hp : p ∈ t.mandatoryProperties) :
    p ∈ t.properties ∧ p.multiplicity = .one ∧ p.isWritable = true := by
  obtain ⟨hp, hone⟩ := List.mem_filter.mp hp
  rw [Bool.and_eq_true, beq_iff_eq] at hone
  exact ⟨hp, hone⟩

theorem mandatoryNames_nodup (h : t.Regular) :
    (t.mandatoryProperties.map Property.name).Nodup :=
  h.names_nodup.sublist ((List.filter_sublist).map _)

/-- A template with the terms of the mandatory values, at places that can be written. -/
structure Binds (t : EntityType) (uri : String) (o : String → Term) (filled : Template) :
    Prop where
  anchor : filled.bindings.lookup t.anchor = some (.iri uri)
  predicates : ∀ p ∈ t.mandatoryProperties, ValidIri (p.predicate.getD "")
  values : ∀ p ∈ t.mandatoryProperties, filled.bindings.lookup p.name = some (o p.name)
  writable : ∀ p ∈ t.mandatoryProperties, (o p.name).Writable

theorem Binds.render (h : t.Writes uri vs) {o : String → Term} {filled : Template}
    (hbinds : t.Binds uri o filled) (htext : t.synthesis.creation = .ok filled.text) :
    filled.render.toList = insertion uri (factsOf o t.mandatoryProperties) := by
  obtain ⟨texts, htexts, hcreation⟩ := creation_ok h.regular htext
  rw [Template.toList_render, hcreation]
  by_cases hnil : t.mandatoryProperties = []
  · rw [hnil, List.mapM_nil, pure_eq_ok] at htexts
    rw [← htexts, hnil]
    exact filled_insertion_nil
  · have hslots : ∀ p ∈ t.mandatoryProperties, IsSlot p.name ∧ ValidIri (p.predicate.getD "") ∧
        filled.bindings.lookup p.name = some (o p.name) := fun p hp =>
      ⟨h.names p (mem_mandatoryProperties hp).1, hbinds.predicates p hp, hbinds.values p hp⟩
    obtain ⟨hne, hall⟩ := filled_insertion (s := t.synthesis) (o := o)
      (h.regular.anchor ▸ h.anchor) (h.regular.anchor ▸ hbinds.anchor) hslots hnil htexts
    rwa [if_neg (by simpa using hne)]

theorem Binds.performs (hbase : env.base = none) (h : t.Writes uri vs) {o : String → Term}
    {filled : Template} (hbinds : t.Binds uri o filled)
    (htext : t.synthesis.creation = .ok filled.text) :
    Change.Performs env filled.render fun g =>
      g.insertAll (factTriples uri (factsOf o t.mandatoryProperties)) := by
  obtain ⟨steps, hread, hcarries⟩ := reads_insertion hbase h.uri
    fun fact (hfact : fact ∈ factsOf o t.mandatoryProperties) => by
      obtain ⟨p, hp, rfl⟩ := List.mem_map.mp hfact
      exact ⟨hbinds.predicates p hp, hbinds.writable p hp⟩
  refine ⟨steps, ?_, hcarries⟩
  rwa [hbinds.render h htext]

/-- Binding the mandatory values binds them where they are written. -/
theorem exists_binds (h : t.Writes uri vs) {text : String}
    (htext : t.synthesis.creation = .ok text) {after : Template} {state final : EntityState}
    (hbind : t.bindMandatory vs t.synthesis.mandatory
      ((Template.ofText text).bind t.anchor (.iri uri)) state = .ok (after, final)) :
    ∃ o, t.Binds uri o after ∧ after.text = text ∧
      final = t.mandatoryProperties.foldl (fun s p => s.insert p.name (o p.name)) state := by
  rw [h.regular.mandatory_eq] at hbind
  obtain ⟨o, hbound, hother, hafter, hfinal⟩ :=
    bindMandatory_ok (mandatoryNames_nodup h.regular) hbind
  rw [List.foldl_map] at hfinal
  refine ⟨o, ?_, hafter, hfinal⟩
  constructor
  · rw [hother t.anchor, Template.lookup_bind, if_pos rfl]
    intro hname
    obtain ⟨p, hp, heq⟩ := List.mem_map.mp hname
    exact h.regular.anchor_ne (mem_mandatoryProperties hp).1 heq
  · intro p hp
    obtain ⟨hin, -, hwritable⟩ := mem_mandatoryProperties hp
    obtain ⟨predicate, hpredicate⟩ := Option.isSome_iff_exists.mp hwritable
    obtain ⟨texts, htexts, -⟩ := creation_ok h.regular htext
    obtain ⟨triple, htriple⟩ := exists_mapM_ok.mp ⟨texts, htexts⟩ p hp
    rw [hpredicate] at htriple ⊢
    exact ⟨checkIri_of_tripleText htriple, h.predicates p hin predicate hpredicate⟩
  · intro p hp
    exact (hbound p.name (List.mem_map_of_mem hp)).1
  · intro p hp
    obtain ⟨hin, hone, -⟩ := mem_mandatoryProperties hp
    obtain ⟨-, q, v, hq, hv, hterm⟩ := hbound p.name (List.mem_map_of_mem hp)
    rw [h.regular.property_eq hin] at hq
    obtain rfl := Except.ok.inj hq
    exact h.terms p hin v _ (.mandatory hone hv) hterm

/-- A draft binds the mandatory values to the template of a creation, and adds the others one by
one. -/
theorem draft_ok (h : t.Writes uri vs) {d : Draft} (hok : t.draft uri vs = .ok d) :
    ∃ text bound state, t.synthesis.creation = .ok text ∧
      t.bindMandatory vs t.synthesis.mandatory
        ((Template.ofText text).bind t.anchor (.iri uri)) (EntityState.none t.properties) =
          .ok (bound, state) ∧
      t.properties.foldlM (t.draftProperty uri vs) ⟨state, [bound.render]⟩ = .ok d := by
  obtain ⟨text, htext, hok⟩ := bind_eq_ok.mp hok
  obtain ⟨template, htemplate, hok⟩ := bind_eq_ok.mp hok
  rw [Template.setIri_of_valid h.uri] at htemplate
  obtain rfl := Except.ok.inj htemplate
  obtain ⟨⟨bound, state⟩, hbind, hok⟩ := bind_eq_ok.mp hok
  exact ⟨text, bound, state, htext, hbind, hok⟩

/-- The first update of a draft, which writes the mandatory values. -/
theorem drafted_mandatory (hbase : env.base = none) (h : t.Writes uri vs) {text : String}
    (htext : t.synthesis.creation = .ok text) {after : Template} {state : EntityState}
    (hbind : t.bindMandatory vs t.synthesis.mandatory
      ((Template.ofText text).bind t.anchor (.iri uri)) (EntityState.none t.properties) =
        .ok (after, state)) :
    Drafted env t uri ⟨state, [after.render]⟩ ∧
      ∀ p ∈ t.properties, p.multiplicity ≠ .one → state.terms p.name = [] := by
  have hnames := h.regular.names_nodup
  have hnone : ∀ p ∈ t.properties, (EntityState.none t.properties).terms p.name = [] := by
    intro p hp
    rw [EntityState.terms, EntityState.property_none hnames hp, PropertyState.terms_none]
  obtain ⟨o, hbinds, hafter, hstate⟩ := exists_binds h htext hbind
  obtain ⟨hfits, hkept, hany⟩ := any_triplesOf_mandatory (o := o) uri hnames
    (fun p hp => ⟨(mem_mandatoryProperties hp).1, (mem_mandatoryProperties hp).2.2⟩)
    (mandatoryNames_nodup h.regular) (EntityState.fits_none hnames)
    fun p hp => hnone p (mem_mandatoryProperties hp).1
  rw [← hstate] at hfits hkept hany
  constructor
  · refine ⟨hfits, ?_, List.cons_ne_nil _ _, ?_⟩
    · intro p hp u hu
      rw [hstate] at hu
      rcases mem_terms_mandatory hnames (fun q hq => (mem_mandatoryProperties hq).1)
        (EntityState.fits_none hnames) hu with ⟨q, hq, rfl⟩ | hu
      · exact hbinds.writable q hq
      · rw [hnone p hp] at hu
        contradiction
    · rw [String.intercalate_singleton]
      apply (hbinds.performs hbase h (hafter.symm ▸ htext)).congr
      intro g u
      rw [Graph.holds_insertAll, Graph.holds_insertAll, hany u, any_triplesOf_none uri hnames,
        Bool.false_or]
  · intro p hp hmany
    rw [hkept p.name, hnone p hp]
    intro hname
    obtain ⟨q, hq, heq⟩ := List.mem_map.mp hname
    obtain rfl := List.inj_on_of_nodup_map hnames (mem_mandatoryProperties hq).1 hp heq
    exact hmany (mem_mandatoryProperties hq).2.1

variable {p : Property} {d after : Draft} {v : Value}

theorem addition_ok (h : t.Writes uri vs) (hp : p ∈ t.properties) {predicate text : String}
    {o : Term} (hpredicate : p.predicate = some predicate)
    (htext : t.additionText uri p.name o = .ok text) :
    ValidIri predicate ∧ text.toList = insertion uri [(predicate, o)] := by
  obtain ⟨initializer, hinitializer, htext⟩ := bind_eq_ok.mp htext
  obtain ⟨template, htemplate, htext⟩ := bind_eq_ok.mp htext
  obtain ⟨bound, hbound, htext⟩ := bind_eq_ok.mp htext
  obtain rfl := pure_eq_ok.mp htext
  rw [Template.setIri_of_valid h.uri] at htemplate
  obtain rfl := Except.ok.inj htemplate
  obtain rfl := setTerm_ok hbound
  rw [h.regular.initializer_eq hp hpredicate] at hinitializer
  obtain ⟨triple, htriple, hinitializer⟩ := bind_eq_ok.mp hinitializer
  obtain rfl := pure_eq_ok.mp hinitializer
  have hvalid : ValidIri predicate :=
    ⟨checkIri_of_tripleText htriple, h.predicates p hp predicate hpredicate⟩
  have htexts : [p].mapM (fun p => t.synthesis.tripleText p.name (p.predicate.getD "")) =
      .ok [triple] := by
    simp only [List.mapM_cons, List.mapM_nil, hpredicate, Option.getD_some, htriple]
    rfl
  have hanchor : t.anchor ≠ p.name := fun heq => h.regular.anchor_ne hp heq.symm
  have hbound : ∀ q ∈ [p], IsSlot q.name ∧ ValidIri (q.predicate.getD "") ∧
      (((Template.ofText ("INSERT DATA \x7b " ++ triple ++ " \x7d")).bind t.anchor
        (.iri uri)).bind p.name o).bindings.lookup q.name = some o := by
    intro q hq
    rw [List.mem_singleton.mp hq, Template.lookup_bind, if_pos rfl, hpredicate]
    exact ⟨h.names p hp, hvalid, rfl⟩
  obtain ⟨-, hfilled⟩ := filled_insertion (o := fun _ => o) (h.regular.anchor ▸ h.anchor)
    (by rw [h.regular.anchor, Template.lookup_bind, if_neg hanchor, Template.lookup_bind,
      if_pos rfl]) hbound (List.cons_ne_nil p []) htexts
  have hfacts : factsOf (fun _ => o) [p] = [(predicate, o)] := by simp [factsOf, hpredicate]
  rw [String.intercalate_singleton, hfacts] at hfilled
  rw [Template.toList_render]
  exact ⟨hvalid, hfilled⟩

/-- The update that adds one value. -/
theorem performs_addition (hbase : env.base = none) (h : t.Writes uri vs) (hp : p ∈ t.properties)
    {predicate text : String} {o : Term} (hpredicate : p.predicate = some predicate)
    (ho : o.Writable) (htext : t.additionText uri p.name o = .ok text) :
    Change.Performs env text fun g => g.insert ⟨.iri uri, .iri predicate, o⟩ := by
  obtain ⟨hvalid, hlist⟩ := addition_ok h hp hpredicate htext
  obtain ⟨steps, hread, hcarries⟩ := reads_insertion hbase h.uri
    fun fact (hfact : fact ∈ [(predicate, o)]) => by
      rw [List.mem_singleton.mp hfact]
      exact ⟨hvalid, ho⟩
  refine ⟨steps, ?_, hcarries.congr fun g u => ?_⟩
  · rwa [hlist]
  · rw [Graph.holds_insertAll, Graph.holds_insert]
    simp [factTriples]

/-- One more value in the state is one more triple in the update. -/
theorem drafted_value (hbase : env.base = none) (h : t.Writes uri vs) (hd : Drafted env t uri d)
    (hp : p ∈ t.properties) (hwritable : p.isWritable = true)
    (hroom : p.isFunctional = true → d.state.terms p.name = [])
    (hv : ∀ o, p.toTerm v = .ok o → o.Writable) (hok : t.draftValue uri p d v = .ok after) :
    Drafted env t uri after ∧
      ∀ name, name ≠ p.name → after.state.terms name = d.state.terms name := by
  obtain ⟨predicate, hpredicate⟩ := Option.isSome_iff_exists.mp hwritable
  obtain ⟨o, ho, hok⟩ := bind_eq_ok.mp hok
  obtain ⟨text, htext, hok⟩ := bind_eq_ok.mp hok
  obtain rfl := pure_eq_ok.mp hok
  have hnames := h.regular.names_nodup
  have hadded := hd.performs.append (performs_addition hbase h hp hpredicate (hv o ho) htext)
  refine ⟨⟨hd.fits.insert hp hnames o, ?_, by simp, ?_⟩, fun name hname => ?_⟩
  · intro q hq u hu
    rcases EntityState.mem_terms_insert (hd.fits.mem hp) hu with rfl | hu
    · exact hv u ho
    · exact hd.writable q hq u hu
  · rw [String.intercalate_append_of_ne_nil hd.nonempty (List.cons_ne_nil _ _),
      String.intercalate_singleton]
    apply hadded.congr
    intro g u
    simp only [Function.comp_apply]
    rw [Graph.holds_insert, Graph.holds_insertAll, Graph.holds_insertAll,
      any_triplesOf_insert uri hnames hd.fits hp hpredicate hroom, Bool.or_assoc]
  · rw [EntityState.terms_insert (hd.fits.mem hp), if_neg hname]

theorem drafted_values (hbase : env.base = none) (h : t.Writes uri vs) {items : List Value}
    (hd : Drafted env t uri d) (hp : p ∈ t.properties) (hwritable : p.isWritable = true)
    (hroom : p.isFunctional = true → items ≠ [] → d.state.terms p.name = [] ∧ items.length ≤ 1)
    (hitems : ∀ v ∈ items, ∀ o, p.toTerm v = .ok o → o.Writable)
    (hok : items.foldlM (t.draftValue uri p) d = .ok after) :
    Drafted env t uri after ∧
      ∀ name, name ≠ p.name → after.state.terms name = d.state.terms name := by
  induction items generalizing d with
  | nil =>
      obtain rfl := Except.ok.inj hok
      exact ⟨hd, fun _ _ => rfl⟩
  | cons v items ih =>
      rw [List.foldlM_cons] at hok
      obtain ⟨next, hnext, hok⟩ := bind_eq_ok.mp hok
      obtain ⟨hdrafted, hkept⟩ := drafted_value hbase h hd hp hwritable
        (fun hone => (hroom hone (List.cons_ne_nil _ _)).1) (hitems v List.mem_cons_self) hnext
      -- a property of a single value has no second item
      have hrest : p.isFunctional = true → items ≠ [] →
          next.state.terms p.name = [] ∧ items.length ≤ 1 := by
        intro hone hne
        have hlength := (hroom hone (List.cons_ne_nil _ _)).2
        rw [List.length_cons] at hlength
        exact absurd (List.length_eq_zero_iff.mp (by omega)) hne
      obtain ⟨hfinal, hothers⟩ := ih hdrafted hrest
        (fun w hw => hitems w (List.mem_cons_of_mem _ hw)) hok
      exact ⟨hfinal, fun name hname => (hothers name hname).trans (hkept name hname)⟩

theorem length_supplied {given : Option Value} {items : List Value}
    (hmany : p.multiplicity ≠ .one) (hone : p.isFunctional = true)
    (h : p.supplied given = .ok items) : items.length ≤ 1 := by
  have hnullable : p.isNullable = true := by
    unfold Property.isFunctional at hone
    unfold Property.isNullable
    cases hp : p.multiplicity <;> simp_all
  unfold Property.supplied at h
  cases given with
  | none => simp [← Except.ok.inj h]
  | some v =>
      simp only [hnullable, if_true] at h
      simp [← Except.ok.inj h]

/-- All values of a property. -/
theorem drafted_property (hbase : env.base = none) (h : t.Writes uri vs)
    (hd : Drafted env t uri d) (hp : p ∈ t.properties)
    (hroom : p.multiplicity ≠ .one → d.state.terms p.name = [])
    (hok : t.draftProperty uri vs d p = .ok after) :
    Drafted env t uri after ∧
      ∀ name, name ≠ p.name → after.state.terms name = d.state.terms name := by
  unfold draftProperty at hok
  by_cases hskip : (!p.isWritable || p.multiplicity == .one) = true
  · rw [if_pos hskip] at hok
    obtain rfl := pure_eq_ok.mp hok
    exact ⟨hd, fun _ _ => rfl⟩
  · rw [if_neg hskip] at hok
    simp only [Bool.or_eq_true, Bool.not_eq_true', beq_iff_eq, not_or, Bool.not_eq_false]
      at hskip
    obtain ⟨items, hitems, hok⟩ := bind_eq_ok.mp hok
    exact drafted_values hbase h hd hp hskip.1
      (fun hone _ => ⟨hroom hskip.2, length_supplied hskip.2 hone hitems⟩)
      (fun v hv o ho => h.terms p hp v o (.item hskip.2 hitems hv) ho) hok

theorem drafted_properties (hbase : env.base = none) (h : t.Writes uri vs) {ps : List Property}
    (hps : ∀ p ∈ ps, p ∈ t.properties) (hdistinct : (ps.map Property.name).Nodup)
    (hd : Drafted env t uri d)
    (hroom : ∀ p ∈ ps, p.multiplicity ≠ .one → d.state.terms p.name = [])
    (hok : ps.foldlM (t.draftProperty uri vs) d = .ok after) : Drafted env t uri after := by
  induction ps generalizing d with
  | nil =>
      obtain rfl := Except.ok.inj hok
      exact hd
  | cons p ps ih =>
      rw [List.foldlM_cons] at hok
      obtain ⟨next, hnext, hok⟩ := bind_eq_ok.mp hok
      rw [List.map_cons, List.nodup_cons] at hdistinct
      obtain ⟨hdrafted, hkept⟩ := drafted_property hbase h hd (hps p List.mem_cons_self)
        (hroom p List.mem_cons_self) hnext
      refine ih (fun q hq => hps q (List.mem_cons_of_mem _ hq)) hdistinct.2 hdrafted ?_ hok
      intro q hq hmany
      rw [hkept q.name fun heq => hdistinct.1 (heq ▸ List.mem_map_of_mem hq)]
      exact hroom q (List.mem_cons_of_mem _ hq) hmany

/-- The update of a creation adds the triples of the state that the entity begins with. -/
theorem drafted_of_draft (hbase : env.base = none) (h : t.Writes uri vs)
    (hok : t.draft uri vs = .ok d) : Drafted env t uri d := by
  obtain ⟨text, bound, state, htext, hbind, hok⟩ := draft_ok h hok
  obtain ⟨hdrafted, hroom⟩ := drafted_mandatory hbase h htext hbind
  exact drafted_properties hbase h (fun p hp => hp) h.regular.names_nodup hdrafted hroom hok

end EntityType

end EntityMapping
