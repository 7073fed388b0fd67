import EntityMapping.Proofs.Session.Sustained

/-!
Which entities can be loaded again.

Where no entity is deleted or redirected, all that a property of one value needs stays in the store.
A property of many values may be empty, also if the selection requires a value: nothing refuses to
create an entity without one, or to take the last one away.  An entity for which the store has none
is not found any more.
-/

namespace EntityMapping

open Sparql (Algebra Clause Query Star)

namespace Session

variable {t : EntityType} {b : Star} {uri : String} {types : List EntityType}
  {star : EntityType → Star}

/-- A fresh session finds an entity of a star exactly if the star holds at its IRI in the store. -/
theorem exists_load_fresh (h : t.Presents b) (m : MemoryStore) {iri : Term}
    (hiri : checkIri uri = .ok iri) (hread : Query.read m.prologue (t.oneText iri) =
      some ((Algebra.project b.body t.query.projected).about t.anchor uri))
    (suffixes : Suffixes) (cacheSize : Nat) (types : List EntityType) (listeners : Listeners) :
    ∃ found loaded,
      (fresh m suffixes cacheSize types listeners).load t uri = (.ok found, loaded) ∧
      (∀ id, found = some id → ∃ values, loaded.entity? id = some (.loaded t uri values)) ∧
      (found ≠ none ↔ b.HoldsAt m.graph uri) := by
  obtain ⟨rows, hanswer, hrows⟩ := h.exists_rows hread
  obtain ⟨found, loaded, hload, hfound, hentity, -⟩ := exists_load
    (pinsDirty_fresh m suffixes cacheSize types listeners) rfl hiri hanswer (hrows.about h.follows)
  refine ⟨found, loaded, hload, fun id hid => ⟨_, hentity id hid⟩, ?_⟩
  rw [← hrows.ne_nil_iff]
  exact not_congr hfound

/-- After any run that deletes and redirects nothing, a commit succeeds, and then every entity of the
session, whether it was created or loaded, is found by a session that begins, exactly if the store
has a value for each of its properties of many values that the selection requires. -/
theorem load_again_iff (hcompatible : EntityType.Compatible types star) (store : MemoryStore)
    (suffixes : Suffixes) (cacheSize : Nat) {deeds : List Deed}
    (hdeeds : Deed.SparingAll types star store.prologue (.ofStore store suffixes cacheSize) deeds) :
    let s := Deed.runAll (.ofStore store suffixes cacheSize) deeds
    ∃ committed, s.commit = (.ok s.journal.changes.length, committed) ∧
      ∀ id e iri, s.entity? id = some e → checkIri e.uri = .ok iri →
        Query.read store.prologue (e.type.oneText iri) =
          some ((Algebra.project (star e.type).body e.type.query.projected).about e.type.anchor
            e.uri) →
        ∀ suffixes cacheSize types listeners, ∃ found loaded,
          (fresh committed.store suffixes cacheSize types listeners).load e.type e.uri =
            (.ok found, loaded) ∧
          (∀ other, found = some other →
            ∃ values, loaded.entity? other = some (.loaded e.type e.uri values)) ∧
          (found ≠ none ↔ ∀ c ∈ (star e.type).clauses, c.isOptional = false →
            ∀ p ∈ e.type.properties, p.name = c.name → p.multiplicity = .many →
              c.objects committed.store.graph e.uri ≠ []) := by
  intro s
  obtain ⟨edits, hsustained⟩ :=
    (sustained_ofStore types star store suffixes cacheSize).runAll hcompatible hdeeds
  obtain ⟨committed, hcommit, hcommitted, hall⟩ := hsustained.exists_commit
  refine ⟨committed, hcommit, ?_⟩
  intro id e iri he hiri hread suffixes cacheSize listed listeners
  obtain ⟨ht, hkept⟩ := hall id e he
  have hstar := hcompatible.ofStar e.type ht
  obtain ⟨found, loaded, hload, hentity, hfound⟩ := exists_load_fresh hstar.presents
    committed.store hiri (hcommitted.prologue ▸ hread) suffixes cacheSize listed listeners
  refine ⟨found, loaded, hload, hentity, hfound.trans ⟨?_, ?_⟩⟩
  · exact fun hholds c hc hrequired _ _ _ _ => hholds c hc hrequired
  · intro hmany c hc hrequired
    obtain ⟨p, hp, hname, hpredicate, hmust⟩ := hstar.follows.exists_property hc
    cases hmultiplicity : p.multiplicity with
    | one =>
        -- no deed takes the only value away
        exact Graph.objects_ne_nil_iff.mpr
          (hkept c.predicate ⟨⟨c, hc, rfl, hrequired⟩, p, hp, hpredicate, hmultiplicity⟩)
    | optional => exact absurd hmultiplicity (hmust hrequired)
    | many => exact hmany c hc hrequired p hp hname hmultiplicity

/-! Notes are created, one with tags and one without, where the selection requires a tag. -/

def keptDeeds : List Deed :=
  [.act (.mutate (.create commentedType commentedValues)),
    .act (.mutate (.set 0 "title" (.term (.literal MemoryStore.trickyText)))),
    .act (.mutate (.remove 0 "tag" (.datum (.text "a"))))]

def untaggedValues : InitialValues :=
  [("title", .datum (.text "a"))]

def emptySession : Session MemoryStore :=
  .ofStore MemoryStore.empty (.ofSequence toString) 4

theorem readable_commented {vs : InitialValues} {d : Draft}
    (hterms : ∀ p ∈ commentedType.properties, ∀ v o,
      vs.Supplies p v → p.toTerm v = .ok o → o.Writable)
    (hdraft : commentedType.draft "http://e/note0" vs = .ok d) :
    Creation.Readable ⟨commentedType, "http://e/note0", vs, d, ofStar_commented.mapped, hdraft⟩ where
  anchor := spelled_commented.anchor
  names p hp := by
    obtain ⟨c, hc, hname, -⟩ := ofStar_commented.follows.clause p hp
    exact hname ▸ spelled_commented.names c hc
  uri := (validIri_of_all rfl rfl : ValidIri "http://e/note0")
  predicates p hp predicate hpredicate := by
    obtain ⟨c, hc, -, hown, -⟩ := ofStar_commented.follows.clause p hp
    obtain rfl := Option.some.inj (hown.symm.trans hpredicate)
    have hchecked : ∀ c ∈ commentedStar.clauses,
        checkIri c.predicate = .ok (.iri c.predicate) := by decide
    exact ⟨hchecked c hc, spelled_commented.predicates c hc⟩
  terms := hterms

theorem writable_untagged : ∀ p ∈ commentedType.properties, ∀ v o,
    untaggedValues.Supplies p v → p.toTerm v = .ok o → o.Writable := by
  intro p hp v o hv ho
  simp only [commentedType, List.mem_cons, List.not_mem_nil, or_false] at hp
  rcases hp with rfl | rfl | rfl
  · cases hv with
    | mandatory hone hv => contradiction
    | item hone hitems hv =>
        obtain rfl := Except.ok.inj hitems
        contradiction
  · cases hv with
    | mandatory hone hv =>
        obtain rfl := Option.some.inj hv
        obtain rfl := Except.ok.inj ho
        exact MemoryStore.readsBack_plain_a
    | item hone hitems hv => exact absurd rfl hone
  · cases hv with
    | mandatory hone hv => contradiction
    | item hone hitems hv =>
        obtain rfl := Except.ok.inj hitems
        contradiction

/-- What the deeds leave to be committed. -/
def keptEdits : List Edit :=
  [.create ⟨commentedType, "http://e/note0", commentedValues, _, ofStar_commented.mapped, rfl⟩,
    .replace "http://e/note0" "http://e/title" (.literal (.plain "a"))
      (.literal MemoryStore.trickyText),
    .remove "http://e/note0" "http://e/tag" (.literal (.plain "a"))]

theorem readable_keptEdits : ∀ edit ∈ keptEdits, edit.Readable := by
  have hnote : ValidIri "http://e/note0" := validIri_of_all rfl rfl
  have htitle : ValidIri "http://e/title" := validIri_of_all rfl rfl
  have htag : ValidIri "http://e/tag" := validIri_of_all rfl rfl
  intro edit hedit
  simp only [keptEdits, List.mem_cons, List.not_mem_nil, or_false] at hedit
  rcases hedit with rfl | rfl | rfl
  · exact readable_commented writable_commented rfl
  · exact ⟨hnote, htitle, MemoryStore.readsBack_plain_a, MemoryStore.readsBack_trickyText⟩
  · exact ⟨hnote, htag, MemoryStore.readsBack_plain_a⟩

theorem sparing_keptDeeds : Deed.SparingAll [commentedType] (fun _ => commentedStar)
    MemoryStore.empty.prologue emptySession keptDeeds := by
  refine ⟨.create (List.mem_singleton_self _) ofStar_commented.mapped fun d hdraft =>
    readable_commented writable_commented hdraft, .write rfl fun c hc => ?_,
    .write rfl fun c hc => ?_, trivial⟩
  · obtain rfl := List.mem_singleton.mp hc
    exact ⟨_, readable_keptEdits _ (List.mem_cons_of_mem _ List.mem_cons_self), rfl⟩
  · obtain rfl := List.mem_singleton.mp hc
    exact ⟨_, readable_keptEdits _ (List.mem_cons_of_mem _ (List.mem_cons_of_mem _
      List.mem_cons_self)), rfl⟩

/-- The note has a tag when all is committed, and is found again. -/
theorem load_again_iff_commented :
    let s := Deed.runAll emptySession keptDeeds
    EntityType.Compatible [commentedType] (fun _ => commentedStar) ∧
    Deed.SparingAll [commentedType] (fun _ => commentedStar) MemoryStore.empty.prologue
      emptySession keptDeeds ∧
    ∃ committed found loaded, s.commit = (.ok 3, committed) ∧
      (fresh committed.store (.ofSequence toString) 1 [commentedType] []).load commentedType
        "http://e/note0" = (.ok (some found), loaded) := by
  intro s
  have hcompatible := ofStar_commented.compatible
  refine ⟨hcompatible, sparing_keptDeeds, ?_⟩
  obtain ⟨committed, hcommit, hall⟩ := load_again_iff hcompatible MemoryStore.empty
    (.ofSequence toString) 4 sparing_keptDeeds
  have hiri : checkIri "http://e/note0" = .ok (.iri "http://e/note0") := rfl
  have he : s.entity? 0 = some ⟨commentedType, "http://e/note0", _, _, _, _⟩ := rfl
  obtain ⟨found, loaded, hload, -, hfound⟩ :=
    hall 0 _ _ he hiri read_commented (.ofSequence toString) 1 [commentedType] []
  have hwaits : s.Waits keptEdits := ⟨rfl, readable_keptEdits⟩
  obtain ⟨stored, hstored, -, -, hsame, -⟩ := hwaits.exists_commit
  obtain rfl := (Prod.mk.inj (hcommit.symm.trans hstored)).2
  have hstates : (Edit.replay keptEdits []).States "http://e/note0" "http://e/tag" :=
    ⟨.literal MemoryStore.trickyText, rfl⟩
  have htag := Graph.objects_ne_nil_iff.mpr (hstates.congr hsame)
  have htitle : ∀ p ∈ commentedType.properties, p.name = "title" → p.multiplicity ≠ .many := by
    decide
  have hsome : found ≠ none := hfound.mpr fun c hc hrequired p hp hname hmany => by
    simp only [commentedStar, List.mem_cons, List.not_mem_nil, or_false] at hc
    rcases hc with rfl | rfl | rfl
    · exact Bool.noConfusion hrequired
    · exact absurd hmany (htitle p hp hname)
    · exact htag
  obtain ⟨id, rfl⟩ := Option.ne_none_iff_exists'.mp hsome
  exact ⟨committed, id, loaded, hcommit, hload⟩

/-- A note that is created with all that is mandatory, and without a tag, is not found again. -/
theorem created_without_tags_is_lost :
    let created := (emptySession.create commentedType untaggedValues).2
    commentedType.OfStar commentedStar ∧
    emptySession.create commentedType untaggedValues = (.ok 0, created) ∧
    ∃ committed loaded, created.commit = (.ok 1, committed) ∧
      (fresh committed.store (.ofSequence toString) 1 [commentedType] []).load commentedType
        "http://e/note0" = (.ok none, loaded) := by
  intro created
  let c : Creation :=
    ⟨commentedType, "http://e/note0", untaggedValues, _, ofStar_commented.mapped, rfl⟩
  have hwaits : created.Waits [.create c] := by
    refine ⟨rfl, fun edit hedit => ?_⟩
    obtain rfl := List.mem_singleton.mp hedit
    exact readable_commented writable_untagged rfl
  obtain ⟨committed, hcommit, -, -, hsame, hprologue, -⟩ := hwaits.exists_commit
  have hiri : checkIri "http://e/note0" = .ok (.iri "http://e/note0") := rfl
  obtain ⟨found, loaded, hload, -, hfound⟩ := exists_load_fresh ofStar_commented.presents
    committed.store hiri (hprologue.symm ▸ read_commented) (.ofSequence toString) 1
    [commentedType] []
  have hnone : found = none := by
    by_contra hsome
    have htag := hfound.mp hsome ⟨"http://e/tag", "tag", false⟩ (by decide) rfl
    have hstates := (Graph.objects_ne_nil_iff.mp htag).congr hsame.symm
    exact Graph.objects_ne_nil_iff.mpr hstates rfl
  subst hnone
  exact ⟨ofStar_commented, rfl, committed, loaded, hcommit, hload⟩

end Session

end EntityMapping
