import EntityMapping.Proofs.Session.Persistence

/-!
What a redirection leaves of the references to an entity.

In the store every reference is moved.  In memory the entities that refer are as they were.  So an
entity that had such a reference is wrong about the store from then on, and a later write of the
property takes away the reference that the entity remembers, which is not the one that is stored.
-/

namespace EntityMapping

namespace Term

variable {old new : String} {t o : Term} {ts : List Term}

/-- What a redirection makes of a term. -/
def redirected (old new : String) (t : Term) : Term :=
  if (Term.iri old).same t then .iri new else t

theorem redirected_self (old new : String) : (Term.iri old).redirected old new = .iri new :=
  if_pos (same_refl _)

theorem redirected_of_ne (h : t ≠ .iri old) : t.redirected old new = t :=
  if_neg fun hsame => h (iri_same_iff.mp hsame)

theorem redirected_ne (hne : new ≠ old) (t : Term) : t.redirected old new ≠ .iri old := by
  unfold redirected
  split
  · exact fun h => hne (Term.iri.inj h)
  · next hsame => exact fun h => hsame (iri_same_iff.mpr h)

theorem memberOf_iri {s : String} : (Term.iri s).memberOf ts = true ↔ .iri s ∈ ts := by
  rw [memberOf_iff]
  constructor
  · rintro ⟨u, hu, hsame⟩
    exact iri_same_iff.mp hsame ▸ hu
  · exact fun hmem => ⟨_, hmem, same_refl _⟩

theorem memberOf_map_redirected (old new : String) (ts : List Term) (o : Term) :
    o.memberOf (ts.map (redirected old new)) =
      (o.memberOf ts && !(Term.iri old).same o ||
        (Term.iri new).same o && (Term.iri old).memberOf ts) := by
  rw [Bool.eq_iff_iff, Bool.or_eq_true, Bool.and_eq_true, Bool.and_eq_true, Bool.not_eq_true',
    memberOf_iff, memberOf_iff, memberOf_iri]
  constructor
  · rintro ⟨u, hu, hou⟩
    obtain ⟨t, ht, rfl⟩ := List.mem_map.mp hu
    by_cases hold : t = .iri old
    · subst hold
      rw [redirected_self] at hou
      exact Or.inr ⟨same_comm o _ ▸ hou, ht⟩
    · rw [redirected_of_ne hold] at hou
      refine Or.inl ⟨⟨t, ht, hou⟩, Bool.eq_false_iff.mpr fun hsame => hold ?_⟩
      exact iri_same_iff.mp (same_trans hsame hou)
  · rintro (⟨⟨t, ht, hot⟩, hother⟩ | ⟨hnew, hmem⟩)
    · refine ⟨t, List.mem_map.mpr ⟨t, ht, redirected_of_ne fun heq => ?_⟩, hot⟩
      rw [heq, same_comm] at hot
      simp [hot] at hother
    · exact ⟨.iri new, List.mem_map.mpr ⟨_, hmem, redirected_self old new⟩, same_comm _ o ▸ hnew⟩

/-- Terms are what they were, as far as they can be told apart, exactly if none was redirected. -/
theorem map_redirected_iff (hne : new ≠ old) :
    (∀ o : Term, o.memberOf (ts.map (redirected old new)) = o.memberOf ts) ↔ .iri old ∉ ts := by
  constructor
  · intro h hmem
    obtain ⟨t, -, ht⟩ := List.mem_map.mp (memberOf_iri.mp ((h _).trans (memberOf_iri.mpr hmem)))
    exact redirected_ne hne t ht
  · intro hnone o
    have hmap : ts.map (redirected old new) = ts.map id :=
      List.map_congr_left fun t ht => redirected_of_ne fun heq => hnone (heq ▸ ht)
    rw [hmap, List.map_id]

/-- All that a redirection brings to a single term is one IRI exactly if there was nothing to move, or
if it was moved there. -/
theorem all_moved_iff (hne : new ≠ old) (hone : ∀ o ∈ ts, ts = [o]) {t : String} :
    (∀ o ∈ (ts.map (redirected old new)).filter fun o => !o.memberOf ts,
      (Term.iri t).same o = true) ↔ .iri old ∉ ts ∨ t = new := by
  simp only [List.mem_filter, List.mem_map, Bool.not_eq_true', and_imp, forall_exists_index,
    forall_apply_eq_imp_iff₂]
  constructor
  · intro h
    refine or_iff_not_imp_left.mpr fun hmem => ?_
    have hmem := not_not.mp hmem
    have hnew : (Term.iri new).memberOf ts = false := by
      rw [Bool.eq_false_iff]
      intro hnew
      rw [hone _ hmem] at hnew
      exact hne (Term.iri.inj (List.mem_singleton.mp (memberOf_iri.mp hnew)))
    have hmoved := h _ hmem
    rw [redirected_self] at hmoved
    exact (Term.iri.inj (iri_same_iff.mp (hmoved hnew))).symm
  · intro h o ho hleft
    by_cases hold : o = .iri old
    · subst hold
      rw [redirected_self, h.resolve_left (not_not.mpr ho)]
      exact same_refl _
    · rw [redirected_of_ne hold, memberOf_iff.mpr ⟨o, ho, same_refl o⟩] at hleft
      contradiction

end Term

namespace Graph

variable {g g' : Graph} {uri predicate : String} {ts : List Term}

/-- A graph that has some terms as the objects of a place, and no others. -/
def StatesOnly (g : Graph) (uri predicate : String) (ts : List Term) : Prop :=
  ∀ o : Term, o.memberOf (g.objects (.iri uri) (.iri predicate)) = o.memberOf ts

theorem statesOnly_iff :
    g.StatesOnly uri predicate ts ↔ ∀ o, g.holds (.stating uri predicate o) = o.memberOf ts := by
  simp only [StatesOnly, memberOf_objects]

theorem StatesOnly.congr (h : g.StatesOnly uri predicate ts) (hsame : g'.Same g) :
    g'.StatesOnly uri predicate ts :=
  statesOnly_iff.mpr fun o => (hsame _).trans (statesOnly_iff.mp h o)

theorem StatesOnly.eq_iff (h : g.StatesOnly uri predicate ts) {others : List Term} :
    g.StatesOnly uri predicate others ↔ ∀ o : Term, o.memberOf ts = o.memberOf others :=
  forall_congr' fun o => by rw [h o]

/-- With a term among the objects of a place, there is no other one exactly if all are the same. -/
theorem StatesOnly.exists_one_iff {t : Term} (h : g.StatesOnly uri predicate (t.insertInto ts)) :
    (∃ o, g.StatesOnly uri predicate [o]) ↔ ∀ o ∈ ts, t.same o = true := by
  simp only [h.eq_iff, Term.memberOf_insertInto]
  constructor
  · rintro ⟨one, hone⟩ o ho
    have hmem : o.same one = true := by
      have hstored := hone o
      rw [Term.memberOf_iff.mpr ⟨o, ho, Term.same_refl o⟩] at hstored
      simpa [Term.memberOf] using hstored.symm
    have hself : t.same one = true := by simpa [Term.memberOf] using hone t
    exact Term.same_trans hself (Term.same_comm o one ▸ hmem)
  · intro hall
    refine ⟨t, fun u => ?_⟩
    rw [Bool.eq_iff_iff, Bool.or_eq_true, Term.memberOf_iff, Term.memberOf_iff]
    simp only [List.mem_singleton, exists_eq_left]
    refine ⟨fun hu => hu.elim ?_ id, Or.inr⟩
    rintro ⟨o, ho, huo⟩
    exact Term.same_trans huo (Term.same_comm t o ▸ hall o ho)

/-- A redirection moves the references at a place of another entity. -/
theorem StatesOnly.redirected (h : g.StatesOnly uri predicate ts) {old : String} (hne : uri ≠ old)
    (new : String) :
    (g.redirected old new).StatesOnly uri predicate (ts.map (Term.redirected old new)) := by
  rw [statesOnly_iff] at h ⊢
  intro o
  have hsubject : (Term.iri old).same (.iri uri) = false := by
    rw [Bool.eq_false_iff]
    exact fun hsame => hne (Term.iri.inj (Term.iri_same_iff.mp hsame))
  have hplace := holds_redirected g old new (.stating uri predicate o)
  simp only [hsubject, Bool.not_false, Bool.and_true] at hplace
  rw [hplace, Term.memberOf_map_redirected, h o, h (.iri old)]

/-- A redirection leaves nothing of the entity itself. -/
theorem statesOnly_redirected_self (g : Graph) (old new predicate : String) :
    (g.redirected old new).StatesOnly old predicate [] := by
  refine statesOnly_iff.mpr fun o => ?_
  rw [holds_redirected]
  simp [Term.memberOf]

/-- A write in the place of the terms that are remembered. -/
theorem StatesOnly.replace (h : g.StatesOnly uri predicate ts) (old new : Term) :
    StatesOnly (Edit.effect g (.replace uri predicate old new)) uri predicate
      (new.insertInto (old.eraseFrom ts)) := by
  rw [statesOnly_iff] at h ⊢
  intro o
  refine (holds_insert_here _ _ _ new o).trans ?_
  rw [holds_erase_here, h, Term.memberOf_insertInto, Term.memberOf_eraseFrom]

theorem StatesOnly.add (h : g.StatesOnly uri predicate ts) (new : Term) :
    StatesOnly (Edit.effect g (.add uri predicate new)) uri predicate (new.insertInto ts) := by
  rw [statesOnly_iff] at h ⊢
  intro o
  refine (holds_insert_here _ _ _ new o).trans ?_
  rw [h, Term.memberOf_insertInto]

end Graph

namespace Property

variable {p : Property} {v : Value} {t : Term}

/-- The term of a reference does not depend on what is stored. -/
theorem termFor_reference (hkind : p.kind = .object) (v : Value) (stored : List Term) :
    p.termFor v stored = p.toTerm v := by
  simp only [termFor, hkind]

theorem ne_nothing_of_reference (hkind : p.kind = .object) (h : p.toTerm v = .ok t) :
    v ≠ .nothing := by
  rintro rfl
  simp only [toTerm, hkind] at h
  contradiction

end Property

theorem Entity.redirect_ok {e : Entity} {v : Value} {gone : Bool} {new : String}
    (halive : e.deleted = false) (htarget : redirectTarget v gone = .ok new)
    (hother : new ≠ e.uri) :
    e.redirect v gone = .ok ({ e with deleted := true }, .redirect e.uri new) := by
  unfold redirect
  refine guard_eq_ok.mpr ⟨halive, bind_eq_ok.mpr ⟨new, htarget, ?_⟩⟩
  exact guard_eq_ok.mpr ⟨by simp [hother], rfl⟩

namespace Session

variable {s : Session MemoryStore} {edits : List Edit} {w id : EntityId} {old e : Entity}
  {p : Property} {predicate new : String} {target : Value}

/-- A redirection that is not refused records itself, and its entity is deleted. -/
theorem exists_redirect (hw : s.entity? w = some old) (halive : old.deleted = false)
    (htarget : Entity.redirectTarget target (s.isDeleted target) = .ok new)
    (hother : new ≠ old.uri) : ∃ after, s.redirect w target = .ok after ∧
      s.Writes w { old with deleted := true } (.redirect old.uri new) after :=
  exists_mutate (f := fun e => (e.redirect target (s.isDeleted target)).map some) hw
    (congrArg (Except.map some) (Entity.redirect_ok halive htarget hother))

/-- A reference that is set and committed takes the place of those that the entity remembers, among
what is stored. -/
theorem Waits.exists_set_reference (h : s.Waits []) (he : s.entity? id = some e) (hsound : e.Sound)
    (hw : e.Writable p.name p predicate) (hkind : p.kind = .object) (hone : p.isFunctional = true)
    {v : Value} {t : String} (hterm : p.toTerm v = .ok (.iri t)) (ht : ValidIri t)
    {stored : List Term} (hstored : s.store.graph.StatesOnly e.uri predicate stored) :
    ∃ written settled, s.set id p.name v = .ok written ∧ written.commit = (.ok 1, settled) ∧
      settled.store.graph.StatesOnly e.uri predicate ((Term.iri t).insertInto
        (stored.filter fun o => !o.memberOf (e.values.terms p.name))) := by
  have hv := Property.ne_nothing_of_reference hkind hterm
  have hpredicate := hsound.validIri hw
  obtain ⟨state, edit, hset, hreadable, hplace⟩ : ∃ state, ∃ edit : Edit,
      e.set p.name v = .ok (some (e.holding p.name state, edit.change)) ∧ edit.Readable ∧
      Graph.StatesOnly (edit.effect s.store.graph) e.uri predicate ((Term.iri t).insertInto
        (stored.filter fun o => !o.memberOf (e.values.terms p.name))) := by
    cases hold : (e.values.terms p.name).head? with
    | none =>
        refine ⟨_, .add e.uri predicate (.iri t),
          hw.set_first hone hold hv ((Property.termFor_reference hkind v _).trans hterm),
          ⟨hsound.uri, hpredicate, ht⟩, ?_⟩
        rw [List.head?_eq_none_iff.mp hold]
        simpa [Term.memberOf] using hstored.add (.iri t)
    | some before =>
        refine ⟨_, .replace e.uri predicate before (.iri t),
          hw.set_another hone hold hv ((Property.termFor_reference hkind v _).trans hterm),
          ⟨hsound.uri, hpredicate, hsound.writable hw _ (List.mem_of_mem_head? hold), ht⟩, ?_⟩
        rw [terms_of_head? hsound.fits hw hone hold]
        simpa [Term.memberOf, Term.eraseFrom, Term.same_comm before] using
          hstored.replace before (.iri t)
  obtain ⟨written, hwritten, hwrites⟩ := exists_set he hset
  obtain ⟨settled, hcommit, -, -, hsame, -⟩ :=
    (h.append hreadable hwrites.journal).exists_commit
  exact ⟨written, settled, hwritten, hcommit, (hwrites.store ▸ hplace).congr hsame⟩

/-- A redirection that is committed: the other entities look as they did, and the store is
redirected. -/
theorem Waits.exists_redirected (h : s.Waits edits) (hw : s.entity? w = some old)
    (halive : old.deleted = false)
    (htarget : Entity.redirectTarget target (s.isDeleted target) = .ok new)
    (hother : new ≠ old.uri) (hold : ValidIri old.uri) (hnew : ValidIri new) :
    ∃ redirected committed, s.redirect w target = .ok redirected ∧
      redirected.commit = (.ok (edits.length + 1), committed) ∧ committed.Waits [] ∧
      (∀ id e, s.entity? id = some e → id ≠ w →
        ∃ kept, committed.entity? id = some kept ∧ visible kept = visible e) ∧
      committed.store.graph.Same ((Edit.replay edits s.store.graph).redirected old.uri new) := by
  obtain ⟨redirected, hredirect, hwrites⟩ := exists_redirect hw halive htarget hother
  have hreadable : Edit.Readable (.redirect old.uri new) := ⟨hold, hnew⟩
  obtain ⟨committed, hcommit, hidle, halike, hsame, -⟩ :=
    (h.append hreadable hwrites.journal).exists_commit
  refine ⟨redirected, committed, hredirect, by simpa using hcommit, hidle, ?_, ?_⟩
  · intro id e he hid
    obtain ⟨kept, hkept, hvisible⟩ := halike.exists_entity ((hwrites.others id hid).trans he)
    exact ⟨kept, hkept, visible_eq_iff.mpr hvisible⟩
  · rw [hwrites.store, Edit.replay_append] at hsame
    exact hsame

theorem eq_singleton_of_mem (hfits : e.values.Fits e.type.properties)
    (hw : e.Writable p.name p predicate) (hone : p.isFunctional = true) {o : Term}
    (ho : o ∈ e.values.terms p.name) : e.values.terms p.name = [o] := by
  obtain ⟨found, hfound⟩ :=
    Option.isSome_iff_exists.mp (List.isSome_head?.mpr (List.ne_nil_of_mem ho))
  have hterms := terms_of_head? hfits hw hone hfound
  rw [hterms] at ho ⊢
  rw [List.mem_singleton.mp ho]

/-- After a redirection and its commit every other entity is as it was, and the store has, at the
place of a property, the terms of the entity with the references moved; it has none for another
entity of the IRI that was given up.  So an entity stays right about the store exactly if it had no
reference to move, and no term that was given up.  When a property of a single reference is set later
and that is committed, then the store has one object exactly if there was no reference to move, or if
the one that was moved is set. -/
theorem redirect_moves_references (h : s.Waits edits) (hw : s.entity? w = some old)
    (halive : old.deleted = false)
    (htarget : Entity.redirectTarget target (s.isDeleted target) = .ok new)
    (hother : new ≠ old.uri) (hold : ValidIri old.uri) (hnew : ValidIri new) :
    ∃ redirected committed, s.redirect w target = .ok redirected ∧
      redirected.commit = (.ok (edits.length + 1), committed) ∧
      ∀ id e p predicate, s.Owns id e p predicate → id ≠ w →
        (Edit.replay edits s.store.graph).StatesOnly e.uri predicate (e.values.terms p.name) →
        ∃ kept, committed.Owns id kept p predicate ∧ visible kept = visible e ∧
          committed.store.graph.StatesOnly e.uri predicate (if e.uri = old.uri then []
            else (e.values.terms p.name).map (Term.redirected old.uri new)) ∧
          (committed.store.graph.StatesOnly e.uri predicate (e.values.terms p.name) ↔
            ∀ o ∈ e.values.terms p.name, o ≠ .iri old.uri ∧ e.uri ≠ old.uri) ∧
          (e.Sound → p.kind = .object → p.isFunctional = true →
            ∀ v t, p.toTerm v = .ok (.iri t) → ValidIri t →
              ∃ written settled, committed.set id p.name v = .ok written ∧
                written.commit = (.ok 1, settled) ∧
                ((∃ o, settled.store.graph.StatesOnly e.uri predicate [o]) ↔
                  e.uri = old.uri ∨ .iri old.uri ∉ e.values.terms p.name ∨ t = new)) := by
  obtain ⟨redirected, committed, hredirect, hcommit, hidle, hothers, hgraph⟩ :=
    h.exists_redirected hw halive htarget hother hold hnew
  refine ⟨redirected, committed, hredirect, hcommit, ?_⟩
  intro id e p predicate howns hid hstated
  obtain ⟨kept, hkept, hvisible⟩ := hothers id e howns.entity hid
  obtain ⟨htype, huri, hvalues, hdeleted⟩ := visible_eq_iff.mp hvisible
  have halive := hdeleted.trans howns.alive
  have hplace : committed.store.graph.StatesOnly e.uri predicate (if e.uri = old.uri then []
      else (e.values.terms p.name).map (Term.redirected old.uri new)) := by
    split
    · next heq => exact heq ▸ (Graph.statesOnly_redirected_self _ _ new _).congr hgraph
    · next hne => exact (hstated.redirected hne new).congr hgraph
  refine ⟨kept, ⟨hkept, halive, htype ▸ howns.property, howns.predicate⟩, hvisible, hplace, ?_, ?_⟩
  · rw [hplace.eq_iff]
    split
    · next heq =>
        simp only [heq, ne_eq, not_true_eq_false, and_false, imp_false]
        refine ⟨fun hnone o ho => ?_, fun hnone o => ?_⟩
        · have hmem := hnone o
          rw [Term.memberOf_iff.mpr ⟨o, ho, Term.same_refl o⟩] at hmem
          contradiction
        · rw [List.eq_nil_iff_forall_not_mem.mpr hnone]
    · next hne =>
        rw [Term.map_redirected_iff hother]
        exact ⟨fun hnone o ho => ⟨fun heq => hnone (heq ▸ ho), hne⟩,
          fun hall hmem => (hall _ hmem).1 rfl⟩
  · intro hsound hkind hone v t hterm ht
    have hkeeps := sound_of_visible hvisible hsound
    have hwritable : kept.Writable p.name p predicate :=
      ⟨hkeeps.mapped.regular.property_eq (htype ▸ howns.property), halive, howns.predicate⟩
    obtain ⟨written, settled, hwritten, hsettled, hfinal⟩ :=
      hidle.exists_set_reference hkept hkeeps hwritable hkind hone hterm ht (huri.symm ▸ hplace)
    have hsingle : ∀ o ∈ e.values.terms p.name, e.values.terms p.name = [o] := by
      intro o ho
      rw [← hvalues] at ho ⊢
      exact eq_singleton_of_mem hkeeps.fits hwritable hone ho
    rw [huri, hvalues] at hfinal
    refine ⟨written, settled, hwritten, hsettled, hfinal.exists_one_iff.trans ?_⟩
    split
    · next heq => simp [heq]
    · next hne =>
        rw [Term.all_moved_iff hother hsingle]
        simp [hne]

/-! Notes that each name the next one. -/

def nextProperty : Property :=
  ⟨"next", .object, .one, some "http://e/next", "note"⟩

def linkedType : EntityType where
  name := "Note"
  query := .ofPattern ["note", "next"]
    (.basic [.plain (.var "note") (.iri "http://e/next") (.var "next")])
  anchor := "note"
  namespaceIri := "http://e/"
  properties := [nextProperty]
  synthesis := ⟨"note", [("next", ⟨true, false, "note", true, some "http://e/next"⟩)]⟩

def linkedNote (uri next : String) : Entity :=
  .loaded linkedType uri [("next", .single (some (.iri next)))]

/-- A session that has three notes in its cache, as the store has them. -/
def linkedSession : Session MemoryStore :=
  let notes := [linkedNote "http://e/n1" "http://e/n2", linkedNote "http://e/n2" "http://e/n3",
    linkedNote "http://e/n3" "http://e/n4"]
  let graph : Graph := [.stating "http://e/n1" "http://e/next" (.iri "http://e/n2"),
    .stating "http://e/n2" "http://e/next" (.iri "http://e/n3"),
    .stating "http://e/n3" "http://e/next" (.iri "http://e/n4")]
  notes.foldl (fun s note => (s.addEntity note).2)
    (ofStore { MemoryStore.empty with graph := graph } (.ofSequence toString) 4)

theorem mapped_linked : linkedType.Mapped :=
  ⟨"Note", linkedType.query, none, "http://e/", ⟨[], [("http://e/next", "note")], []⟩, [], rfl⟩

theorem validIri_next : ValidIri "http://e/next" := validIri_of_all rfl rfl

theorem sound_linked {uri next : String} (huri : ValidIri uri) (hnext : ValidIri next) :
    (linkedNote uri next).Sound where
  mapped := mapped_linked
  fits := ⟨rfl, fun p hp => by obtain rfl := List.mem_singleton.mp hp; rfl⟩
  uri := huri
  predicates p hp predicate hpredicate := by
    obtain rfl := List.mem_singleton.mp hp
    obtain rfl := Option.some.inj hpredicate
    exact validIri_next
  terms p hp _ t ht := by
    obtain rfl := List.mem_singleton.mp hp
    obtain rfl := List.mem_singleton.mp ht
    exact hnext

theorem waits_linked : linkedSession.Waits [] where
  journal := rfl
  readable _ h := absurd h List.not_mem_nil

theorem owns_linked {id : EntityId} {uri next : String}
    (he : linkedSession.entity? id = some (linkedNote uri next)) :
    linkedSession.Owns id (linkedNote uri next) nextProperty "http://e/next" :=
  ⟨he, rfl, List.mem_singleton_self _, rfl⟩

theorem redirect_moves_references_linked :
    let second : Value := .entity 2 "http://e/n3"
    linkedSession.entity? 1 = some (linkedNote "http://e/n2" "http://e/n3") ∧
    Entity.redirectTarget second (linkedSession.isDeleted second) = .ok "http://e/n3" ∧
    ∃ redirected committed, linkedSession.redirect 1 second = .ok redirected ∧
      redirected.commit = (.ok 1, committed) ∧
      (committed.store.graph.StatesOnly "http://e/n1" "http://e/next" [.iri "http://e/n3"] ∧
        ∃ written settled, committed.set 0 "next" (.term (.iri "http://e/n3")) = .ok written ∧
          written.commit = (.ok 1, settled) ∧
          ∃ o, settled.store.graph.StatesOnly "http://e/n1" "http://e/next" [o]) ∧
      (committed.store.graph.StatesOnly "http://e/n3" "http://e/next" [.iri "http://e/n4"] ∧
        ∃ written settled, committed.set 2 "next" (.term (.iri "http://e/n1")) = .ok written ∧
          written.commit = (.ok 1, settled) ∧
          ∃ o, settled.store.graph.StatesOnly "http://e/n3" "http://e/next" [o]) := by
  intro second
  have hfirst : ValidIri "http://e/n1" := validIri_of_all rfl rfl
  have hold : ValidIri "http://e/n2" := validIri_of_all rfl rfl
  have hnew : ValidIri "http://e/n3" := validIri_of_all rfl rfl
  have hlast : ValidIri "http://e/n4" := validIri_of_all rfl rfl
  have htarget : Entity.redirectTarget second (linkedSession.isDeleted second) =
      .ok "http://e/n3" := rfl
  obtain ⟨redirected, committed, hredirect, hcommit, hothers⟩ :=
    redirect_moves_references waits_linked (w := 1) rfl rfl htarget (by decide) hold hnew
  refine ⟨rfl, htarget, redirected, committed, hredirect, hcommit, ?_, ?_⟩
  · obtain ⟨-, -, -, hplace, -, hset⟩ := hothers 0 _ _ _ (owns_linked rfl) (by decide) fun _ => rfl
    refine ⟨hplace, ?_⟩
    obtain ⟨written, settled, hwritten, hsettled, hone⟩ :=
      hset (sound_linked hfirst hold) rfl rfl (.term (.iri "http://e/n3")) "http://e/n3" rfl hnew
    exact ⟨written, settled, hwritten, hsettled, hone.mpr (Or.inr (Or.inr rfl))⟩
  · obtain ⟨-, -, -, hplace, -, hset⟩ := hothers 2 _ _ _ (owns_linked rfl) (by decide) fun _ => rfl
    refine ⟨hplace, ?_⟩
    obtain ⟨written, settled, hwritten, hsettled, hone⟩ :=
      hset (sound_linked hnew hlast) rfl rfl (.term (.iri "http://e/n1")) "http://e/n1" rfl hfirst
    exact ⟨written, settled, hwritten, hsettled, hone.mpr (Or.inr (Or.inl (by decide)))⟩

/-- A note that is clean and right about the store still names the note that was redirected, after
the commit; and the next write leaves two names in the store. -/
theorem moved_reference_is_not_replaced :
    let note := linkedNote "http://e/n1" "http://e/n2"
    (linkedSession.cached linkedType "http://e/n1").1 = some 0 ∧
    linkedSession.entity? 0 = some note ∧ linkedSession.isDirty 0 = false ∧
    linkedSession.store.graph.StatesOnly "http://e/n1" "http://e/next" (note.values.terms "next") ∧
    ∃ redirected committed kept written settled,
      linkedSession.redirect 1 (.entity 2 "http://e/n3") = .ok redirected ∧
      redirected.commit = (.ok 1, committed) ∧ committed.entity? 0 = some kept ∧
      kept.values.terms "next" = [.iri "http://e/n2"] ∧
      committed.store.graph.StatesOnly "http://e/n1" "http://e/next" [.iri "http://e/n3"] ∧
      committed.set 0 "next" (.term (.iri "http://e/n4")) = .ok written ∧
      written.commit = (.ok 1, settled) ∧
      settled.store.graph.StatesOnly "http://e/n1" "http://e/next"
        [.iri "http://e/n3", .iri "http://e/n4"] ∧
      ¬∃ o, settled.store.graph.StatesOnly "http://e/n1" "http://e/next" [o] := by
  intro note
  have hfirst : ValidIri "http://e/n1" := validIri_of_all rfl rfl
  have hold : ValidIri "http://e/n2" := validIri_of_all rfl rfl
  have hnew : ValidIri "http://e/n3" := validIri_of_all rfl rfl
  have hlast : ValidIri "http://e/n4" := validIri_of_all rfl rfl
  have htarget : Entity.redirectTarget (.entity 2 "http://e/n3")
      (linkedSession.isDeleted (.entity 2 "http://e/n3")) = .ok "http://e/n3" := rfl
  obtain ⟨redirected, committed, hredirect, hcommit, hidle, hothers, hgraph⟩ :=
    waits_linked.exists_redirected (w := 1) rfl rfl htarget (by decide) hold hnew
  obtain ⟨kept, hkept, hvisible⟩ := hothers 0 note rfl (by decide)
  obtain ⟨htype, huri, hvalues, hdeleted⟩ := visible_eq_iff.mp hvisible
  have hplace : committed.store.graph.StatesOnly "http://e/n1" "http://e/next"
      [.iri "http://e/n3"] := Graph.StatesOnly.congr (fun _ => rfl) hgraph
  have hw : kept.Writable "next" nextProperty "http://e/next" := ⟨htype ▸ rfl, hdeleted, rfl⟩
  obtain ⟨written, settled, hwritten, hsettled, hfinal⟩ :=
    hidle.exists_set_reference (p := nextProperty) hkept
      (sound_of_visible hvisible (sound_linked hfirst hold)) hw rfl rfl
      (v := .term (.iri "http://e/n4")) rfl hlast (by rw [huri]; exact hplace)
  rw [huri, hvalues] at hfinal
  have hboth : settled.store.graph.StatesOnly "http://e/n1" "http://e/next"
      [.iri "http://e/n3", .iri "http://e/n4"] := hfinal
  refine ⟨by decide +kernel, rfl, rfl, fun _ => rfl, redirected, committed, kept, written, settled,
    hredirect, hcommit, hkept, by rw [hvalues]; rfl, hplace, hwritten, hsettled, hboth, ?_⟩
  rintro ⟨o, hone⟩
  have hthird := (hboth (.iri "http://e/n3")).symm.trans (hone _)
  have hfourth := (hboth (.iri "http://e/n4")).symm.trans (hone _)
  cases o <;> simp [Term.memberOf, Term.same] at hthird hfourth
  simp [← hthird] at hfourth

end Session

end EntityMapping
