import EntityMapping.Proofs.Entity.Draft
import EntityMapping.Store.Memory

/-!
Edits: changes with what they mean for a graph.

An edit says in terms of triples what its change says in terms of updates.  The updates of several
changes, sent as one request, do to the graph of a store what the edits do one after the other.
-/

namespace EntityMapping

open Sparql (Prologue Update)

/-- A type that was made from a selection. -/
def EntityType.Mapped (t : EntityType) : Prop :=
  ∃ name q anchor namespaceIri hints overrides,
    EntityType.ofQuery name q anchor namespaceIri hints overrides = .ok t

theorem EntityType.Mapped.regular {t : EntityType} (h : t.Mapped) : t.Regular := by
  obtain ⟨name, q, anchor, namespaceIri, hints, overrides, hmapped⟩ := h
  exact EntityType.regular_of_ofQuery hmapped

/-- A creation by an entity type, with the draft that it made. -/
structure Creation where
  type : EntityType
  uri : String
  values : InitialValues
  draft : Draft
  mapped : type.Mapped
  drafted : type.draft uri values = .ok draft

namespace Creation

/-- The triples that a creation is to add. -/
def triples (c : Creation) : List Triple :=
  c.type.triplesOf c.uri c.draft.state

/-- A creation of which everything can be written. -/
structure Readable (c : Creation) : Prop where
  anchor : IsSlot c.type.anchor
  names : ∀ p ∈ c.type.properties, IsSlot p.name
  uri : ValidIri c.uri
  predicates : ∀ p ∈ c.type.properties, ∀ predicate, p.predicate = some predicate →
    ValidIri predicate
  terms : ∀ p ∈ c.type.properties, ∀ v o, c.values.Supplies p v → p.toTerm v = .ok o → o.Writable

theorem Readable.writes {c : Creation} (h : c.Readable) : c.type.Writes c.uri c.values :=
  ⟨c.mapped.regular, h.anchor, h.names, h.uri,
    fun p hp predicate hpredicate => (h.predicates p hp predicate hpredicate).2, h.terms⟩

end Creation

/-- A change as it is meant. -/
inductive Edit where
  | add (uri predicate : String) (value : Term)
  | remove (uri predicate : String) (value : Term)
  | replace (uri predicate : String) (old new : Term)
  | create (c : Creation)
  | delete (uri : String)
  | redirect (oldUri newUri : String)

namespace Edit

/-- The change that is queued for an edit. -/
def change : Edit → Change
  | .add uri predicate value => .add uri predicate value
  | .remove uri predicate value => .remove uri predicate value
  | .replace uri predicate old new => .replace uri predicate old new
  | .create c => .create c.uri (Change.separator.intercalate c.draft.updates)
  | .delete uri => .delete uri
  | .redirect oldUri newUri => .redirect oldUri newUri

/-- What an edit makes of a graph. -/
def effect (g : Graph) : Edit → Graph
  | .add uri predicate value => g.insert ⟨.iri uri, .iri predicate, value⟩
  | .remove uri predicate value => g.erase ⟨.iri uri, .iri predicate, value⟩
  | .replace uri predicate old new =>
    (g.erase ⟨.iri uri, .iri predicate, old⟩).insert ⟨.iri uri, .iri predicate, new⟩
  | .create c => g.insertAll c.triples
  | .delete uri => g.withoutNode uri
  | .redirect oldUri newUri => g.redirected oldUri newUri

/-- What edits make of a graph, one after the other. -/
def replay (edits : List Edit) (g : Graph) : Graph :=
  edits.foldl effect g

/-- An edit that can be written: its IRIs may stand in brackets, and its terms are IRIs or literals
that are read as themselves. -/
def Readable : Edit → Prop
  | .add uri predicate value => ValidIri uri ∧ ValidIri predicate ∧ value.Writable
  | .remove uri predicate value => ValidIri uri ∧ ValidIri predicate ∧ value.Writable
  | .replace uri predicate old new =>
    ValidIri uri ∧ ValidIri predicate ∧ old.Writable ∧ new.Writable
  | .create c => c.Readable
  | .delete uri => ValidIri uri
  | .redirect oldUri newUri => ValidIri oldUri ∧ ValidIri newUri

variable {env : Prologue}

/-- The update of an edit does what the edit means. -/
theorem does_effect (hbase : env.base = none) {e : Edit} (h : e.Readable) :
    e.change.Does env (effect · e) := by
  cases e with
  | add uri predicate value => exact Change.does_add hbase h.1 h.2.1 h.2.2
  | remove uri predicate value => exact Change.does_remove hbase h.1 h.2.1 h.2.2
  | replace uri predicate old new =>
      exact Change.does_replace hbase h.1 h.2.1 h.2.2.1 h.2.2.2
  | create c =>
      have hdrafted := EntityType.drafted_of_draft hbase h.writes c.drafted
      exact ⟨_, rfl, hdrafted.performs⟩
  | delete uri => exact Change.does_delete hbase h
  | redirect oldUri newUri => exact Change.does_redirect hbase h.1 h.2

/-- The updates of several edits, with separators between them. -/
theorem performs_replay (hbase : env.base = none) {edits : List Edit} (hne : edits ≠ [])
    (h : ∀ e ∈ edits, e.Readable) :
    ∃ texts, (edits.map change).mapM Change.update = .ok texts ∧ texts ≠ [] ∧
      Change.Performs env (Change.separator.intercalate texts) (replay edits) := by
  induction edits with
  | nil => exact absurd rfl hne
  | cons e edits ih =>
      obtain ⟨text, htext, hperforms⟩ := does_effect hbase (h e List.mem_cons_self)
      rw [List.map_cons, List.mapM_cons, htext]
      by_cases hnil : edits = []
      · subst hnil
        refine ⟨[text], rfl, List.cons_ne_nil _ _, ?_⟩
        rwa [String.intercalate_singleton]
      · obtain ⟨texts, htexts, hmoreNe, hmore⟩ :=
          ih hnil fun other hother => h other (List.mem_cons_of_mem _ hother)
        refine ⟨text :: texts, ?_, List.cons_ne_nil _ _, ?_⟩
        · rw [htexts]
          rfl
        · rw [String.intercalate_cons_of_ne_nil hmoreNe]
          exact hperforms.append hmore

/-- The updates of several edits and of one more change, as one request. -/
theorem exists_combine_append (hbase : env.base = none) {edits : List Edit}
    (h : ∀ e ∈ edits, e.Readable) {c : Change} {f : Graph → Graph} (hc : c.Does env f) :
    ∃ text, Change.combine (edits.map change ++ [c]) = .ok text ∧
      Change.Performs env text fun g => f (replay edits g) := by
  obtain ⟨last, hlast, hperforms⟩ := hc
  by_cases hnil : edits = []
  · subst hnil
    refine ⟨last, ?_, hperforms⟩
    rw [List.map_nil, List.nil_append, Change.combine, List.mapM_cons, hlast, List.mapM_nil]
    exact congrArg Except.ok String.intercalate_singleton
  · obtain ⟨texts, htexts, hne, hall⟩ := performs_replay hbase hnil h
    refine ⟨Change.separator.intercalate (texts ++ [last]), ?_, ?_⟩
    · rw [Change.combine, List.mapM_append, htexts, List.mapM_cons, hlast, List.mapM_nil]
      rfl
    · rw [String.intercalate_append_of_ne_nil hne (List.cons_ne_nil last []),
        String.intercalate_singleton]
      exact hall.append hperforms

end Edit

namespace MemoryStore

/-- A text that performs a function of graphs is an update of every store. -/
theorem apply_of_performs (m : MemoryStore) {text : String} {f : Graph → Graph}
    (h : Change.Performs m.prologue text f) :
    ∃ after, m.apply text = .ok after ∧ Graph.Same after.graph (f m.graph) ∧
      after.prefixes = m.prefixes := by
  obtain ⟨steps, hread, hcarries⟩ := h
  have hupdate := hread.read_eq
  rw [String.ofList_toList] at hupdate
  refine ⟨{ m with
    graph := steps.run m.serial m.graph
    updates := m.updates + 1
    serial := m.serial + 1 }, ?_, hcarries.run m.serial m.graph, rfl⟩
  simp only [apply, hupdate]

/-- An update that performs a function of graphs leaves an honest graph honest. -/
theorem honest_of_performs {m after : MemoryStore} {text : String} {f : Graph → Graph}
    (h : Change.Performs m.prologue text f) (hafter : m.apply text = .ok after)
    (hg : m.graph.Honest) : after.graph.Honest := by
  obtain ⟨steps, hread, hcarries⟩ := h
  have hupdate := hread.read_eq
  rw [String.ofList_toList] at hupdate
  simp only [apply, hupdate] at hafter
  obtain rfl := Except.ok.inj hafter
  exact Sparql.Update.run_honest hcarries.honest hg m.serial

/-- The request that carries several edits leaves the graph that the edits make one after the
other. -/
theorem apply_combine_eq_replay (m : MemoryStore) {edits : List Edit} (hne : edits ≠ [])
    (h : ∀ e ∈ edits, e.Readable) :
    ∃ text after, Change.combine (edits.map Edit.change) = .ok text ∧
      m.apply text = .ok after ∧ Graph.Same after.graph (Edit.replay edits m.graph) := by
  have hbase : m.prologue.base = none := rfl
  obtain ⟨texts, htexts, -, hperforms⟩ := Edit.performs_replay hbase hne h
  obtain ⟨after, hafter, hsame, -⟩ := m.apply_of_performs hperforms
  refine ⟨_, after, ?_, hafter, hsame⟩
  rw [Change.combine, htexts]
  rfl

/-! Notes with titles and tags, and a store in which an entity refers to itself. -/

/-- Notes have one title and any number of tags. -/
def noteType : EntityType where
  name := "Note"
  query := .ofPattern ["note", "title", "tag"] (.basic
    [.plain (.var "note") (.iri "http://e/title") (.var "title"),
      .plain (.var "note") (.iri "http://e/tag") (.var "tag")])
  anchor := "note"
  namespaceIri := "http://e/"
  properties := [⟨"title", .literal, .one, some "http://e/title", "Literal"⟩,
    ⟨"tag", .literal, .many, some "http://e/tag", "Literal"⟩]
  synthesis := ⟨"note", [("title", ⟨true, false, "Literal", false, some "http://e/title"⟩),
    ("tag", ⟨false, false, "Literal", false, some "http://e/tag"⟩)]⟩

theorem mapped_noteType : noteType.Mapped :=
  ⟨"Note", noteType.query, none, "http://e/", ⟨["http://e/tag"], [], []⟩, [], rfl⟩

/-- A text with quotes, a separator, braces and a question mark. -/
def trickyText : Literal :=
  .plain "say \"hi\" ; \x7b ?x \x7d 'q'"

def noteValues : InitialValues :=
  [("title", .datum (.text "a")), ("tag", .list [.term (.literal trickyText)])]

def noteCreation : Creation where
  type := noteType
  uri := "http://e/n1"
  values := noteValues
  draft := (noteType.draft "http://e/n1" noteValues).toOption.getD ⟨[], []⟩
  mapped := mapped_noteType
  drafted := rfl

def noteEdits : List Edit :=
  [.create noteCreation,
    .replace "http://e/n1" "http://e/title" (.literal (.plain "a")) (.literal trickyText),
    .add "http://e/n1" "http://e/tag" (.literal (.plain "a")),
    .remove "http://e/n1" "http://e/tag" (.literal trickyText),
    .delete "http://e/gone",
    .redirect "http://e/old" "http://e/n1"]

def noteStore : MemoryStore :=
  { MemoryStore.empty with graph :=
    [⟨.iri "http://e/old", .iri "http://e/next", .iri "http://e/old"⟩,
      ⟨.iri "http://e/n2", .iri "http://e/next", .iri "http://e/old"⟩] }

theorem readsBack_trickyText : trickyText.ReadsBack := by
  have hexpanded : Sparql.Lexer.expanded trickyText.n3.toList =
      some "\"say \\\"hi\\\" ; \x7b ?x \x7d 'q'\"".toList := rfl
  exact Literal.readsBack_of_no_tab hexpanded (by decide) rfl rfl rfl

theorem readsBack_plain_a : (Literal.plain "a").ReadsBack := by
  have hexpanded : Sparql.Lexer.expanded (Literal.plain "a").n3.toList =
      some "\"a\"".toList := rfl
  exact Literal.readsBack_of_no_tab hexpanded (by decide) rfl rfl rfl

theorem readable_noteCreation : noteCreation.Readable where
  anchor := Piece.isSlotName_of_all rfl rfl
  names p hp := by
    rcases List.mem_cons.mp hp with rfl | hp
    · exact Piece.isSlotName_of_all rfl rfl
    · rw [List.mem_singleton.mp hp]
      exact Piece.isSlotName_of_all rfl rfl
  uri := validIri_of_all rfl rfl
  predicates p hp predicate hpredicate := by
    rcases List.mem_cons.mp hp with rfl | hp
    · obtain rfl := Option.some.inj hpredicate
      exact validIri_of_all rfl rfl
    · rw [List.mem_singleton.mp hp] at hpredicate
      obtain rfl := Option.some.inj hpredicate
      exact validIri_of_all rfl rfl
  terms p hp v o hv ho := by
    rcases List.mem_cons.mp hp with rfl | hp
    · cases hv with
      | mandatory hone hv =>
          obtain rfl := Option.some.inj hv
          obtain rfl := Except.ok.inj ho
          exact readsBack_plain_a
      | item hone hitems hv => exact absurd rfl hone
    · obtain rfl := List.mem_singleton.mp hp
      cases hv with
      | mandatory hone hv => contradiction
      | item hone hitems hv =>
          obtain rfl := Except.ok.inj hitems
          obtain rfl := List.mem_singleton.mp hv
          obtain rfl := Except.ok.inj ho
          exact readsBack_trickyText

theorem readable_noteEdits : ∀ e ∈ noteEdits, e.Readable := by
  have hnote : ValidIri "http://e/n1" := validIri_of_all rfl rfl
  have htitle : ValidIri "http://e/title" := validIri_of_all rfl rfl
  have htag : ValidIri "http://e/tag" := validIri_of_all rfl rfl
  intro e he
  simp only [noteEdits, List.mem_cons, List.not_mem_nil, or_false] at he
  rcases he with rfl | rfl | rfl | rfl | rfl | rfl
  · exact readable_noteCreation
  · exact ⟨hnote, htitle, readsBack_plain_a, readsBack_trickyText⟩
  · exact ⟨hnote, htag, readsBack_plain_a⟩
  · exact ⟨hnote, htag, readsBack_trickyText⟩
  · exact validIri_of_all rfl rfl
  · exact ⟨validIri_of_all rfl rfl, hnote⟩

theorem apply_combine_eq_replay_notes : (∀ e ∈ noteEdits, e.Readable) ∧
    ∃ text after, Change.combine (noteEdits.map Edit.change) = .ok text ∧
      noteStore.apply text = .ok after ∧
      Graph.Same after.graph (Edit.replay noteEdits noteStore.graph) :=
  ⟨readable_noteEdits,
    apply_combine_eq_replay noteStore (List.cons_ne_nil _ _) readable_noteEdits⟩

end MemoryStore

end EntityMapping
