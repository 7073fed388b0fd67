import EntityMapping.Proofs.Entity.Founded
import EntityMapping.Proofs.Graph

/-!
What rows give an entity does not depend on their order.

The values of a property are collected one by one, and a term that is there already is left out.
So there are as many of them as there are different terms, whatever comes first; only the choice
among several values for a property of a single value depends on the order.
-/

namespace EntityMapping

namespace Term

/-- No two of the terms are the same. -/
def Apart (ts : List Term) : Prop :=
  ts.Pairwise fun t u => t.same u = false

theorem apart_insertInto {ts : List Term} (h : Apart ts) (t : Term) : Apart (t.insertInto ts) := by
  unfold insertInto
  split
  · exact h
  · next hnew =>
      refine List.pairwise_append.mpr ⟨h, List.pairwise_singleton _ _, fun u hu v hv => ?_⟩
      obtain rfl := List.mem_singleton.mp hv
      apply Bool.eq_false_iff.mpr
      intro hsame
      exact hnew (memberOf_iff.mpr ⟨u, hu, same_comm u v ▸ hsame⟩)

/-- There is room for different terms among as many others only. -/
theorem Apart.length_le {ts us : List Term} (h : Apart ts)
    (hmem : ∀ t ∈ ts, t.memberOf us = true) : ts.length ≤ us.length := by
  induction ts generalizing us with
  | nil => exact Nat.zero_le _
  | cons t ts ih =>
      obtain ⟨hfirst, hrest⟩ := List.pairwise_cons.mp h
      obtain ⟨u, hu, htu⟩ := memberOf_iff.mp (hmem t List.mem_cons_self)
      have hothers : ∀ v ∈ ts, v.memberOf (us.erase u) = true := by
        intro v hv
        obtain ⟨w, hw, hvw⟩ := memberOf_iff.mp (hmem v (List.mem_cons_of_mem _ hv))
        have hne : w ≠ u := by
          rintro rfl
          have htv := same_trans htu (same_comm v w ▸ hvw)
          rw [hfirst v hv] at htv
          contradiction
        exact memberOf_iff.mpr ⟨w, (List.mem_erase_of_ne hne).mpr hw, hvw⟩
      have hlength := ih hrest hothers
      rw [List.length_erase_of_mem hu] at hlength
      have hsome := List.length_pos_of_mem hu
      rw [List.length_cons]
      omega

theorem Apart.length_eq {ts us : List Term} (hts : Apart ts) (hus : Apart us)
    (hsame : ∀ t : Term, t.memberOf ts = t.memberOf us) : ts.length = us.length := by
  apply Nat.le_antisymm
  · apply hts.length_le
    intro t ht
    rw [← hsame]
    exact memberOf_iff.mpr ⟨t, ht, same_refl t⟩
  · apply hus.length_le
    intro t ht
    rw [hsame]
    exact memberOf_iff.mpr ⟨t, ht, same_refl t⟩

theorem memberOf_perm {ts us : List Term} (h : ts.Perm us) (t : Term) :
    t.memberOf ts = t.memberOf us :=
  h.any_eq

/-- Terms that are collected one by one. -/
theorem collected (ts seen : List Term) (h : Apart seen) :
    Apart (ts.foldl (fun seen t => t.insertInto seen) seen) ∧
      ∀ u : Term, u.memberOf (ts.foldl (fun seen t => t.insertInto seen) seen) =
        (u.memberOf seen || u.memberOf ts) := by
  induction ts generalizing seen with
  | nil => exact ⟨h, fun u => (Bool.or_false _).symm⟩
  | cons t ts ih =>
      obtain ⟨hapart, hmember⟩ := ih (t.insertInto seen) (apart_insertInto h t)
      refine ⟨hapart, fun u => ?_⟩
      rw [List.foldl_cons, hmember, memberOf_insertInto, Bool.or_assoc]
      rfl

end Term

namespace Property

variable {p : Property} {rows others : List Row}

theorem apart_valuesIn (p : Property) (rows : List Row) : Term.Apart (p.valuesIn rows) :=
  (Term.collected _ [] List.Pairwise.nil).1

/-- The values of a property are the terms that some row has for it. -/
theorem memberOf_valuesIn (p : Property) (rows : List Row) (t : Term) :
    t.memberOf (p.valuesIn rows) = t.memberOf (rows.filterMap (·.term? p.name)) :=
  ((Term.collected _ [] List.Pairwise.nil).2 t).trans (Bool.false_or _)

/-- Rows that have the same terms for a property, in whatever order. -/
def Alike (p : Property) (rows others : List Row) : Prop :=
  (rows.map (·.term? p.name)).Perm (others.map (·.term? p.name))

theorem Alike.memberOf_valuesIn (h : p.Alike rows others) (t : Term) :
    t.memberOf (p.valuesIn rows) = t.memberOf (p.valuesIn others) := by
  rw [Property.memberOf_valuesIn, Property.memberOf_valuesIn]
  have hterms := h.filterMap id
  rw [List.filterMap_map, List.filterMap_map] at hterms
  exact Term.memberOf_perm hterms t

theorem Alike.length_valuesIn (h : p.Alike rows others) :
    (p.valuesIn rows).length = (p.valuesIn others).length :=
  Term.Apart.length_eq (apart_valuesIn p rows) (apart_valuesIn p others) h.memberOf_valuesIn

theorem Alike.violationIn (h : p.Alike rows others) (uri : String) :
    p.violationIn uri rows = p.violationIn uri others := by
  rw [Property.violationIn, Property.violationIn, h.length_valuesIn]

/-- There is one value at most where no two rows have different terms. -/
theorem length_valuesIn_le_one (h : ∀ row ∈ rows, ∀ other ∈ rows, ∀ t u,
    row.term? p.name = some t → other.term? p.name = some u → t.same u = true) :
    (p.valuesIn rows).length ≤ 1 := by
  have hapart := apart_valuesIn p rows
  have hsame : ∀ t ∈ p.valuesIn rows, ∀ u ∈ p.valuesIn rows, t.same u = true := by
    intro t ht u hu
    obtain ⟨row, hrow, hterm⟩ := mem_valuesIn ht
    obtain ⟨other, hother, hotherTerm⟩ := mem_valuesIn hu
    exact h row hrow other hother t u hterm hotherTerm
  generalize p.valuesIn rows = values at hapart hsame ⊢
  match values, hapart with
  | [], _ => exact Nat.zero_le 1
  | [_], _ => exact Nat.le_refl 1
  | t :: u :: rest, hapart =>
      have htu := hsame t List.mem_cons_self u (List.mem_cons_of_mem _ List.mem_cons_self)
      rw [(List.pairwise_cons.mp hapart).1 u List.mem_cons_self] at htu
      contradiction

/-- Where no choice was made among several values, the state of a property has all of them. -/
theorem terms_stateIn (h : p.isFunctional = false ∨ (p.valuesIn rows).length ≤ 1) :
    (p.stateIn rows).terms = p.valuesIn rows := by
  unfold stateIn
  cases hfunctional : p.isFunctional with
  | false => rfl
  | true =>
      have hone := h.resolve_left (by simp [hfunctional])
      simp only [if_true, PropertyState.terms]
      generalize p.valuesIn rows = values at hone ⊢
      cases values with
      | nil => rfl
      | cons t rest =>
          obtain rfl := List.length_eq_zero_iff.mp (Nat.le_zero.mp (Nat.le_of_succ_le_succ hone))
          rfl

theorem Alike.memberOf_stateIn (h : p.Alike rows others)
    (hone : p.isFunctional = false ∨ (p.valuesIn rows).length ≤ 1) (t : Term) :
    t.memberOf (p.stateIn rows).terms = t.memberOf (p.stateIn others).terms := by
  rw [terms_stateIn hone, terms_stateIn (h.length_valuesIn ▸ hone)]
  exact h.memberOf_valuesIn t

end Property

namespace EntityType

variable {t : EntityType} {rows others : List Row}

theorem terms_stateIn (hnames : (t.properties.map Property.name).Nodup) {p : Property}
    (hp : p ∈ t.properties) : (t.stateIn rows).terms p.name = (p.stateIn rows).terms := by
  rw [EntityState.terms, EntityState.property, stateIn,
    EntityState.lookup_map (Property.stateIn · rows) hnames hp]
  rfl

theorem violationsIn_alike (h : ∀ p ∈ t.properties, p.Alike rows others) (uri : String) :
    t.violationsIn uri rows = t.violationsIn uri others :=
  List.filterMap_congr fun p hp => (h p hp).violationIn uri

theorem entityUri_of_mem_violationsIn {uri : String} {v : Violation}
    (h : v ∈ t.violationsIn uri rows) : v.entityUri = uri := by
  obtain ⟨p, -, hv⟩ := List.mem_filterMap.mp h
  unfold Property.violationIn at hv
  dsimp only at hv
  split at hv
  · contradiction
  · split at hv
    · exact Option.some.inj hv ▸ rfl
    · split at hv
      · exact Option.some.inj hv ▸ rfl
      · contradiction

/-! ### Whom rows are about -/

theorem mem_rowsAbout {uri : String} {row : Row} :
    row ∈ t.rowsAbout uri rows ↔ row ∈ rows ∧ t.subjectOf? row = some uri := by
  simp [rowsAbout]

theorem mem_subjectsIn {uri : String} :
    uri ∈ t.subjectsIn rows ↔ t.rowsAbout uri rows ≠ [] := by
  rw [subjectsIn, Sparql.Algebra.mem_distinctNames, List.mem_filterMap]
  constructor
  · rintro ⟨row, hrow, hsubject⟩
    exact List.ne_nil_of_mem (mem_rowsAbout.mpr ⟨hrow, hsubject⟩)
  · intro hsome
    obtain ⟨row, hrow⟩ := List.exists_mem_of_ne_nil _ hsome
    exact ⟨row, mem_rowsAbout.mp hrow⟩

/-- Rows that are all about one IRI. -/
theorem subjectsIn_of_all {uri : String} (h : ∀ row ∈ rows, t.subjectOf? row = some uri) :
    t.subjectsIn rows = if rows = [] then [] else [uri] := by
  have hall : ∀ found ∈ t.subjectsIn rows, found = uri := by
    intro found hfound
    obtain ⟨row, hrow⟩ := List.exists_mem_of_ne_nil _ (mem_subjectsIn.mp hfound)
    obtain ⟨hrow, hsubject⟩ := mem_rowsAbout.mp hrow
    exact Option.some.inj (hsubject.symm.trans (h row hrow))
  have hnodup : (t.subjectsIn rows).Nodup := Sparql.Algebra.nodup_distinctNames _
  split
  · next hempty =>
      rw [hempty]
      rfl
  · next hsome =>
      obtain ⟨row, hrow⟩ := List.exists_mem_of_ne_nil _ hsome
      have hmem : uri ∈ t.subjectsIn rows :=
        mem_subjectsIn.mpr (List.ne_nil_of_mem (mem_rowsAbout.mpr ⟨hrow, h row hrow⟩))
      generalize t.subjectsIn rows = found at hall hnodup hmem
      match found, hall, hnodup, hmem with
      | [first], hall, _, _ => rw [hall first List.mem_cons_self]
      | first :: second :: rest, hall, hnodup, _ =>
          have heq := (hall first List.mem_cons_self).trans
            (hall second (List.mem_cons_of_mem _ List.mem_cons_self)).symm
          exact absurd (heq ▸ List.mem_cons_self) (List.nodup_cons.mp hnodup).1

/-- Of the violations in the rows of several entities, those of one entity. -/
theorem filter_violationsIn (t : EntityType) (about : String → List Row) (uri : String)
    {uris : List String} (hnodup : uris.Nodup) :
    ((uris.flatMap fun u => t.violationsIn u (about u)).filter fun v => v.entityUri = uri) =
      if uri ∈ uris then t.violationsIn uri (about uri) else [] := by
  induction uris with
  | nil => rfl
  | cons first rest ih =>
      obtain ⟨hnew, hrest⟩ := List.nodup_cons.mp hnodup
      rw [List.flatMap_cons, List.filter_append, ih hrest]
      by_cases hfirst : uri = first
      · subst hfirst
        rw [if_neg hnew, if_pos List.mem_cons_self, List.append_nil, List.filter_eq_self]
        intro v hv
        exact decide_eq_true (entityUri_of_mem_violationsIn hv)
      · have hnone : (t.violationsIn first (about first)).filter (·.entityUri = uri) = [] := by
          rw [List.filter_eq_nil_iff]
          intro v hv
          rw [entityUri_of_mem_violationsIn hv, decide_eq_true_iff]
          exact Ne.symm hfirst
        simp [hnone, hfirst]

end EntityType

end EntityMapping
