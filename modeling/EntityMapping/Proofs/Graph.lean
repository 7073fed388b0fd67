import EntityMapping.Graph

/-!
Graphs by what they hold.

Two graphs that hold the same triples may list them in different orders, and a step of an update may
show the order in what it adds.  So graphs are compared by the triples that they hold.
-/

namespace EntityMapping

namespace Term

theorem iri_same_iff {s : String} {t : Term} : (Term.iri s).same t = true ↔ t = .iri s := by
  cases t with
  | iri other =>
      simp only [same, beq_iff_eq, iri.injEq]
      exact eq_comm
  | _ => simp [same]

theorem same_iri_congr {t u : Term} (h : t.same u = true) (s : String) :
    (Term.iri s).same t = (Term.iri s).same u := by
  rw [Bool.eq_iff_iff]
  constructor
  · intro hs
    exact same_trans hs h
  · intro hs
    exact same_trans hs (same_comm u t ▸ h)

theorem memberOf_iff {t : Term} {ts : List Term} :
    t.memberOf ts = true ↔ ∃ u ∈ ts, t.same u = true :=
  List.any_eq_true

theorem memberOf_congr {t u : Term} (h : t.same u = true) (ts : List Term) :
    t.memberOf ts = u.memberOf ts := by
  rw [Bool.eq_iff_iff, memberOf_iff, memberOf_iff]
  constructor
  · rintro ⟨v, hv, htv⟩
    exact ⟨v, hv, same_trans (same_comm t u ▸ h) htv⟩
  · rintro ⟨v, hv, huv⟩
    exact ⟨v, hv, same_trans h huv⟩

theorem memberOf_insertInto (t : Term) (ts : List Term) (u : Term) :
    u.memberOf (t.insertInto ts) = (u.memberOf ts || u.same t) := by
  unfold insertInto
  split
  · next hmem =>
      by_cases hut : u.same t
      · rw [memberOf_congr hut, hmem]
        rfl
      · simp [hut]
  · simp [memberOf]

theorem mem_insertInto {t u : Term} {ts : List Term} (h : u ∈ t.insertInto ts) :
    u = t ∨ u ∈ ts := by
  unfold insertInto at h
  split at h
  · exact Or.inr h
  · rcases List.mem_append.mp h with h | h
    · exact Or.inr h
    · exact Or.inl (List.mem_singleton.mp h)

theorem memberOf_eraseFrom (t : Term) (ts : List Term) (u : Term) :
    u.memberOf (t.eraseFrom ts) = (u.memberOf ts && !t.same u) := by
  rw [Bool.eq_iff_iff, Bool.and_eq_true, memberOf_iff, memberOf_iff, Bool.not_eq_true',
    Bool.eq_false_iff]
  constructor
  · rintro ⟨v, hv, huv⟩
    obtain ⟨hmem, hother⟩ := List.mem_filter.mp hv
    refine ⟨⟨v, hmem, huv⟩, fun htu => ?_⟩
    simp [same_trans htu huv] at hother
  · rintro ⟨⟨v, hv, huv⟩, hother⟩
    refine ⟨v, List.mem_filter.mpr ⟨hv, ?_⟩, huv⟩
    rw [Bool.not_eq_true', Bool.eq_false_iff]
    intro htv
    exact hother (same_trans htv (same_comm u v ▸ huv))

end Term

namespace Triple

theorem same_right {t u : Triple} (h : t.same u = true) (v : Triple) : v.same t = v.same u := by
  rw [Bool.eq_iff_iff]
  exact ⟨fun hv => Triple.same_trans hv h,
    fun hv => Triple.same_trans hv (Triple.same_comm t u ▸ h)⟩

theorem same_left {t u : Triple} (h : t.same u = true) (w : Triple) : t.same w = u.same w := by
  rw [same_comm t, same_comm u, same_right h]

theorem same_iri_iff {u : Triple} {s p : String} {o : Term} :
    u.same ⟨.iri s, .iri p, o⟩ = true ↔
      u.subject = .iri s ∧ u.predicate = .iri p ∧ u.object.same o = true := by
  rw [same, Bool.and_eq_true, Bool.and_eq_true, Term.same_comm u.subject,
    Term.same_comm u.predicate, Term.iri_same_iff, Term.iri_same_iff, and_assoc]

/-- The triple that states a value of a property. -/
abbrev stating (uri predicate : String) (o : Term) : Triple :=
  ⟨.iri uri, .iri predicate, o⟩

theorem same_stating_here (uri predicate : String) (o t : Term) :
    (stating uri predicate o).same (stating uri predicate t) = o.same t := by
  simp [same, Term.same]

theorem same_stating_elsewhere {uri predicate s q : String} (h : s ≠ uri ∨ q ≠ predicate)
    (o t : Term) : (stating s q o).same (stating uri predicate t) = false := by
  rcases h with h | h <;> simp [same, Term.same, h]

end Triple

namespace Graph

/-- Whether two graphs hold the same triples. -/
def Same (g h : Graph) : Prop :=
  ∀ t, g.holds t = h.holds t

theorem Same.refl (g : Graph) : g.Same g := fun _ => rfl

theorem Same.trans {g h k : Graph} (hg : g.Same h) (hh : h.Same k) : g.Same k := fun t =>
  (hg t).trans (hh t)

theorem Same.symm {g h : Graph} (hg : g.Same h) : h.Same g := fun t => (hg t).symm

theorem holds_iff {g : Graph} {t : Triple} : g.holds t = true ↔ ∃ u ∈ g, t.same u = true :=
  List.any_eq_true

/-- The same triple in other words is held as well. -/
theorem holds_congr (g : Graph) {t u : Triple} (h : t.same u = true) : g.holds t = g.holds u := by
  have hone : ∀ {t u : Triple}, t.same u = true → g.holds t = true → g.holds u = true := by
    intro t u h ht
    obtain ⟨v, hv, htv⟩ := holds_iff.mp ht
    exact holds_iff.mpr ⟨v, hv, Triple.same_trans (Triple.same_comm t u ▸ h) htv⟩
  rw [Bool.eq_iff_iff]
  exact ⟨hone h, hone (Triple.same_comm t u ▸ h)⟩

theorem holds_insertAll (g : Graph) (ts : List Triple) (u : Triple) :
    (g.insertAll ts).holds u = (g.holds u || ts.any u.same) := by
  induction ts generalizing g with
  | nil => simp [insertAll]
  | cons t ts ih =>
      have hstep : g.insertAll (t :: ts) = (g.insert t).insertAll ts := rfl
      rw [hstep, ih, holds_insert, List.any_cons, Bool.or_assoc]

theorem holds_eraseAll (g : Graph) (ts : List Triple) (u : Triple) :
    (g.eraseAll ts).holds u = (g.holds u && !ts.any (·.same u)) := by
  induction ts generalizing g with
  | nil => simp [eraseAll]
  | cons t ts ih =>
      have hstep : g.eraseAll (t :: ts) = (g.erase t).eraseAll ts := rfl
      rw [hstep, ih, holds_erase, List.any_cons, Bool.not_or, Bool.and_assoc]

/-- A filter that treats equal triples alike. -/
theorem holds_filter (g : Graph) {p : Triple → Bool}
    (hp : ∀ {t u : Triple}, t.same u = true → p t = p u) (u : Triple) :
    Graph.holds (g.filter p) u = (g.holds u && p u) := by
  rw [Bool.eq_iff_iff, Bool.and_eq_true, holds_iff, holds_iff]
  constructor
  · rintro ⟨v, hv, huv⟩
    obtain ⟨hmem, hpv⟩ := List.mem_filter.mp hv
    exact ⟨⟨v, hmem, huv⟩, (hp huv).trans hpv⟩
  · rintro ⟨⟨v, hv, huv⟩, hpu⟩
    exact ⟨v, List.mem_filter.mpr ⟨hv, (hp huv).symm.trans hpu⟩, huv⟩

/-- Erasing some triples of a graph, those of a filter, leaves the others. -/
theorem holds_eraseAll_filter (g : Graph) {p : Triple → Bool}
    (hp : ∀ {t u : Triple}, t.same u = true → p t = p u) (u : Triple) :
    (g.eraseAll (g.filter p)).holds u = (g.holds u && !p u) := by
  have hfilter : (g.filter p).any (·.same u) = (g.holds u && p u) := by
    rw [← holds_filter g hp, holds]
    exact List.any_congr rfl fun v => Triple.same_comm v u
  rw [holds_eraseAll, hfilter]
  cases g.holds u <;> simp

/-- The triples that do not mention an IRI as subject or object. -/
def withoutNode (g : Graph) (uri : String) : Graph :=
  g.filter fun t => !(Term.iri uri).same t.subject && !(Term.iri uri).same t.object

/-- The triples that do not have the old IRI as subject, with the new one where the old one is the
object. -/
def redirected (g : Graph) (old new : String) : Graph :=
  (g.filter fun t => !(Term.iri old).same t.subject).map fun t =>
    if (Term.iri old).same t.object then { t with object := .iri new } else t

theorem holds_withoutNode (g : Graph) (uri : String) (u : Triple) :
    (g.withoutNode uri).holds u =
      (g.holds u && (!(Term.iri uri).same u.subject && !(Term.iri uri).same u.object)) := by
  refine holds_filter g (fun {t u} h => ?_) u
  simp only [Triple.same, Bool.and_eq_true] at h
  rw [Term.same_iri_congr h.1.1, Term.same_iri_congr h.2]

theorem holds_redirected (g : Graph) (old new : String) (u : Triple) :
    (g.redirected old new).holds u =
      ((g.holds u && !(Term.iri old).same u.object ||
        (Term.iri new).same u.object && g.holds { u with object := .iri old }) &&
        !(Term.iri old).same u.subject) := by
  rw [Bool.eq_iff_iff, holds_iff]
  simp only [Bool.and_eq_true, Bool.or_eq_true, Bool.not_eq_true', holds_iff]
  constructor
  · rintro ⟨w, hw, huw⟩
    obtain ⟨v, hv, rfl⟩ := List.mem_map.mp hw
    obtain ⟨hmem, hsubject⟩ := List.mem_filter.mp hv
    split at huw
    · next hobject =>
        simp only [Triple.same, Bool.and_eq_true] at huw ⊢
        refine ⟨Or.inr ⟨Term.same_comm u.object _ ▸ huw.2, v, hmem, huw.1, hobject⟩, ?_⟩
        rw [Term.same_iri_congr huw.1.1]
        simpa using hsubject
    · next hobject =>
        have hparts := huw
        simp only [Triple.same, Bool.and_eq_true] at hparts
        refine ⟨Or.inl ⟨⟨v, hmem, huw⟩, ?_⟩, ?_⟩
        · rw [Term.same_iri_congr hparts.2]
          simpa using hobject
        · rw [Term.same_iri_congr hparts.1.1]
          simpa using hsubject
  · rintro ⟨⟨⟨v, hv, huv⟩, hobject⟩ | ⟨hobject, v, hv, huv⟩, hsubject⟩
    · have hparts := huv
      simp only [Triple.same, Bool.and_eq_true] at hparts
      rw [Term.same_iri_congr hparts.1.1] at hsubject
      rw [Term.same_iri_congr hparts.2] at hobject
      exact ⟨_, List.mem_map.mpr ⟨v, List.mem_filter.mpr ⟨hv, by simp [hsubject]⟩, rfl⟩,
        by simpa [hobject] using huv⟩
    · have hparts := huv
      simp only [Triple.same, Bool.and_eq_true] at hparts
      rw [Term.same_iri_congr hparts.1.1] at hsubject
      refine ⟨_, List.mem_map.mpr ⟨v, List.mem_filter.mpr ⟨hv, by simp [hsubject]⟩, rfl⟩, ?_⟩
      rw [if_pos hparts.2]
      simp only [Triple.same, Bool.and_eq_true]
      exact ⟨hparts.1, Term.same_comm u.object _ ▸ hobject⟩

/-! ### Places: an IRI with a predicate -/

theorem exists_of_mem_objects {g : Graph} {subject predicate o : Term}
    (h : o ∈ g.objects subject predicate) : ∃ u ∈ g, u.object = o := by
  obtain ⟨u, hu, rfl⟩ := List.mem_map.mp h
  exact ⟨u, (List.mem_filter.mp hu).1, rfl⟩

theorem memberOf_objects (g : Graph) (uri predicate : String) (o : Term) :
    o.memberOf (g.objects (.iri uri) (.iri predicate)) = g.holds (.stating uri predicate o) := by
  rw [Bool.eq_iff_iff, Term.memberOf_iff, holds_iff]
  constructor
  · rintro ⟨t, ht, hot⟩
    obtain ⟨u, hu, rfl⟩ := List.mem_map.mp ht
    obtain ⟨hmem, hmatch⟩ := List.mem_filter.mp hu
    simp only [Option.all_some, Option.all_none, Bool.and_true, Bool.and_eq_true] at hmatch
    refine ⟨u, hmem, ?_⟩
    rw [Triple.same, Term.same_comm _ u.subject, Term.same_comm _ u.predicate, hmatch.1, hmatch.2]
    exact hot
  · rintro ⟨u, hu, hsame⟩
    rw [Triple.same, Bool.and_eq_true, Bool.and_eq_true] at hsame
    refine ⟨u.object, List.mem_map.mpr ⟨u, List.mem_filter.mpr ⟨hu, ?_⟩, rfl⟩, hsame.2⟩
    rw [Option.all_some, Option.all_some, Term.same_comm u.subject, Term.same_comm u.predicate]
    simp [hsame.1.1, hsame.1.2]

theorem holds_insert_here (g : Graph) (uri predicate : String) (t o : Term) :
    (g.insert (.stating uri predicate t)).holds (.stating uri predicate o) =
      (g.holds (.stating uri predicate o) || o.same t) := by
  rw [holds_insert, Triple.same_stating_here]

theorem holds_erase_here (g : Graph) (uri predicate : String) (t o : Term) :
    (g.erase (.stating uri predicate t)).holds (.stating uri predicate o) =
      (g.holds (.stating uri predicate o) && !t.same o) := by
  rw [holds_erase, Triple.same_stating_here]

/-- Two graphs hold the same objects at every place but one. -/
def SameElsewhere (g h : Graph) (uri predicate : String) : Prop :=
  ∀ s q, s ≠ uri ∨ q ≠ predicate → ∀ o, g.holds (.stating s q o) = h.holds (.stating s q o)

theorem SameElsewhere.trans {g h k : Graph} {uri predicate : String}
    (hg : g.SameElsewhere h uri predicate) (hh : h.SameElsewhere k uri predicate) :
    g.SameElsewhere k uri predicate := fun s q hne o =>
  (hg s q hne o).trans (hh s q hne o)

theorem insert_elsewhere (g : Graph) (uri predicate : String) (t : Term) :
    (g.insert (.stating uri predicate t)).SameElsewhere g uri predicate := by
  intro s q hne o
  rw [holds_insert, Triple.same_stating_elsewhere hne, Bool.or_false]

theorem erase_elsewhere (g : Graph) (uri predicate : String) (t : Term) :
    (g.erase (.stating uri predicate t)).SameElsewhere g uri predicate := by
  intro s q hne o
  rw [holds_erase, Triple.same_comm, Triple.same_stating_elsewhere hne, Bool.not_false,
    Bool.and_true]

end Graph

end EntityMapping
