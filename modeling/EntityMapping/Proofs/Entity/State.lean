import EntityMapping.Entity.State
import EntityMapping.Proofs.Graph
import Mathlib.Data.List.Nodup

/-!
States of entities that fit their properties, and the triples that a state stands for.
-/

namespace EntityMapping

/-! ### States and properties -/

namespace PropertyState

/-- Whether there is room for one term only. -/
def isSingle : PropertyState → Bool
  | .single _ => true
  | .several _ => false

theorem isSingle_none (p : Property) : (PropertyState.none p).isSingle = p.isFunctional := by
  unfold PropertyState.none
  cases p.isFunctional <;> rfl

theorem terms_none (p : Property) : (PropertyState.none p).terms = [] := by
  unfold PropertyState.none
  cases p.isFunctional <;> rfl

@[simp] theorem isSingle_insert (t : Term) (s : PropertyState) :
    (s.insert t).isSingle = s.isSingle := by
  cases s <;> rfl

/-- A term that finds room is there beside the others. -/
theorem memberOf_terms_insert {t : Term} {s : PropertyState} (h : s.isSingle = true → s.terms = [])
    (u : Term) : u.memberOf (s.insert t).terms = (u.memberOf s.terms || u.same t) := by
  cases s with
  | single value =>
      rw [h rfl]
      simp [insert, terms, Term.memberOf]
  | several values => exact Term.memberOf_insertInto t values u

theorem mem_terms_insert {t u : Term} {s : PropertyState} (h : u ∈ (s.insert t).terms) :
    u = t ∨ u ∈ s.terms := by
  cases s with
  | single value => exact Or.inl (List.mem_singleton.mp h)
  | several values => exact Term.mem_insertInto h

end PropertyState

namespace EntityState

theorem names_set (s : EntityState) (name : String) (p : PropertyState) :
    (s.set name p).map Prod.fst = s.map Prod.fst := by
  rw [set, List.map_map]
  apply List.map_congr_left
  intro entry _
  by_cases h : entry.1 = name <;> simp [h]

theorem lookup_set (s : EntityState) (name other : String) (p : PropertyState) :
    (s.set name p).lookup other =
      (s.lookup other).map fun q => if other = name then p else q := by
  induction s with
  | nil => rfl
  | cons entry s ih =>
      obtain ⟨n, q⟩ := entry
      have hset : set ((n, q) :: s) name p =
          (n, if n = name then p else q) :: set s name p := by
        by_cases hn : n = name <;> simp [set, hn]
      rw [hset, List.lookup_cons, List.lookup_cons]
      by_cases ho : other = n
      · simp [ho]
      · simpa [beq_false_of_ne ho] using ih

theorem lookup_isSome {s : EntityState} {name : String} (h : name ∈ s.map Prod.fst) :
    ∃ p, s.lookup name = some p := by
  induction s with
  | nil => simp at h
  | cons entry s ih =>
      obtain ⟨n, q⟩ := entry
      by_cases hn : name = n
      · exact ⟨q, by simp [hn]⟩
      · obtain ⟨p, hp⟩ := ih ((List.mem_cons.mp h).resolve_left hn)
        exact ⟨p, by simp [List.lookup_cons, beq_false_of_ne hn, hp]⟩

theorem property_set (s : EntityState) {name : String} (h : name ∈ s.map Prod.fst)
    (p : PropertyState) (other : String) :
    (s.set name p).property other = if other = name then p else s.property other := by
  rw [property, lookup_set, property]
  by_cases ho : other = name
  · obtain ⟨q, hq⟩ := lookup_isSome h
    simp [ho, hq]
  · simp [ho]

/-- A state that has room for exactly what the properties may have. -/
structure Fits (properties : List Property) (s : EntityState) : Prop where
  names : s.map Prod.fst = properties.map Property.name
  shape : ∀ p ∈ properties, (s.property p.name).isSingle = p.isFunctional

variable {properties : List Property} {s : EntityState}

theorem lookup_map {p : Property} (f : Property → PropertyState)
    (hnames : (properties.map Property.name).Nodup) (hp : p ∈ properties) :
    (properties.map fun p => (p.name, f p)).lookup p.name = some (f p) := by
  induction properties with
  | nil => simp at hp
  | cons q properties ih =>
      rw [List.map_cons, List.nodup_cons] at hnames
      rcases List.mem_cons.mp hp with rfl | hp
      · simp
      · have hne : p.name ≠ q.name := fun heq =>
          hnames.1 (List.mem_map.mpr ⟨p, hp, heq⟩)
        simp [List.lookup_cons, beq_false_of_ne hne, ih hnames.2 hp]

theorem property_none (hnames : (properties.map Property.name).Nodup) {p : Property}
    (hp : p ∈ properties) : (EntityState.none properties).property p.name = .none p := by
  simp [property, EntityState.none, lookup_map _ hnames hp]

theorem fits_none (hnames : (properties.map Property.name).Nodup) :
    Fits properties (EntityState.none properties) where
  names := by simp [EntityState.none]
  shape p hp := by rw [property_none hnames hp, PropertyState.isSingle_none]

theorem Fits.mem (h : Fits properties s) {p : Property} (hp : p ∈ properties) :
    p.name ∈ s.map Prod.fst :=
  h.names ▸ List.mem_map_of_mem hp

theorem Fits.set (h : Fits properties s) {p : Property} (hp : p ∈ properties)
    (hnames : (properties.map Property.name).Nodup) {q : PropertyState}
    (hq : q.isSingle = p.isFunctional) : Fits properties (s.set p.name q) where
  names := (names_set s p.name q).trans h.names
  shape other hother := by
    rw [property_set s (h.mem hp)]
    split
    · next hname =>
        obtain rfl := List.inj_on_of_nodup_map hnames hother hp hname
        exact hq
    · exact h.shape other hother

theorem Fits.insert (h : Fits properties s) {p : Property} (hp : p ∈ properties)
    (hnames : (properties.map Property.name).Nodup) (t : Term) :
    Fits properties (s.insert p.name t) :=
  h.set hp hnames ((PropertyState.isSingle_insert t _).trans (h.shape p hp))

end EntityState

theorem EntityState.terms_insert {s : EntityState} {name : String} (h : name ∈ s.map Prod.fst)
    (t : Term) (other : String) :
    (s.insert name t).terms other =
      if other = name then ((s.property name).insert t).terms else s.terms other := by
  rw [EntityState.terms, EntityState.insert, EntityState.property_set s h]
  split <;> rfl

theorem EntityState.mem_terms_insert {s : EntityState} {name other : String} {t u : Term}
    (hname : name ∈ s.map Prod.fst) (h : u ∈ (s.insert name t).terms other) :
    u = t ∨ u ∈ s.terms other := by
  rw [terms_insert hname] at h
  split at h
  · next heq =>
      subst heq
      exact PropertyState.mem_terms_insert h
  · exact Or.inr h

/-! ### The triples of a state -/

namespace EntityType

/-- The triples that a state of an entity stands for: one for each term of a property that can be
written. -/
def triplesOf (t : EntityType) (uri : String) (s : EntityState) : List Triple :=
  t.properties.flatMap fun p =>
    p.predicate.toList.flatMap fun predicate =>
      (s.terms p.name).map fun o => ⟨.iri uri, .iri predicate, o⟩

theorem any_triplesOf {t : EntityType} {uri : String} {s : EntityState} {u : Triple} :
    (t.triplesOf uri s).any u.same = true ↔
      ∃ p ∈ t.properties, ∃ predicate, p.predicate = some predicate ∧
        u.subject = .iri uri ∧ u.predicate = .iri predicate ∧
          u.object.memberOf (s.terms p.name) = true := by
  rw [List.any_eq_true]
  simp only [Term.memberOf_iff]
  constructor
  · rintro ⟨v, hv, huv⟩
    obtain ⟨p, hp, hv⟩ := List.mem_flatMap.mp hv
    obtain ⟨predicate, hpredicate, hv⟩ := List.mem_flatMap.mp hv
    obtain ⟨o, ho, rfl⟩ := List.mem_map.mp hv
    obtain ⟨hs, hq, huo⟩ := Triple.same_iri_iff.mp huv
    exact ⟨p, hp, predicate, Option.mem_toList.mp hpredicate, hs, hq, o, ho, huo⟩
  · rintro ⟨p, hp, predicate, hpredicate, hs, hq, o, ho, huo⟩
    refine ⟨⟨.iri uri, .iri predicate, o⟩, List.mem_flatMap.mpr ⟨p, hp, ?_⟩,
      Triple.same_iri_iff.mpr ⟨hs, hq, huo⟩⟩
    exact List.mem_flatMap.mpr ⟨predicate, Option.mem_toList.mpr hpredicate,
      List.mem_map.mpr ⟨o, ho, rfl⟩⟩

variable {t : EntityType} {s : EntityState} {p : Property}

/-- No triples stand for the state without values. -/
theorem any_triplesOf_none (uri : String) (hnames : (t.properties.map Property.name).Nodup) (u : Triple) :
    (t.triplesOf uri (EntityState.none t.properties)).any u.same = false := by
  rw [Bool.eq_false_iff]
  intro hany
  obtain ⟨p, hp, predicate, -, -, -, hmem⟩ := any_triplesOf.mp hany
  rw [EntityState.terms, EntityState.property_none hnames hp, PropertyState.terms_none] at hmem
  contradiction

/-- One more term of a property is one more triple, if there is room for it. -/
theorem any_triplesOf_insert (uri : String) (hnames : (t.properties.map Property.name).Nodup)
    (hfits : s.Fits t.properties) (hp : p ∈ t.properties) {predicate : String}
    (hpredicate : p.predicate = some predicate) (hroom : p.isFunctional = true →
      s.terms p.name = []) (o : Term) (u : Triple) :
    (t.triplesOf uri (s.insert p.name o)).any u.same =
      ((t.triplesOf uri s).any u.same || u.same ⟨.iri uri, .iri predicate, o⟩) := by
  have hterms := EntityState.terms_insert (hfits.mem hp) o
  have hinserted := PropertyState.memberOf_terms_insert (t := o) (s := s.property p.name)
    fun hsingle => hroom (hfits.shape p hp ▸ hsingle)
  rw [Bool.eq_iff_iff, Bool.or_eq_true, any_triplesOf, any_triplesOf, Triple.same_iri_iff]
  constructor
  · rintro ⟨q, hq, other, hother, hs, hpred, hmem⟩
    rw [hterms] at hmem
    split at hmem
    · next hname =>
        obtain rfl := List.inj_on_of_nodup_map hnames hq hp hname
        obtain rfl := Option.some.inj (hother.symm.trans hpredicate)
        rw [hinserted, Bool.or_eq_true] at hmem
        rcases hmem with hmem | hmem
        · exact Or.inl ⟨q, hq, other, hother, hs, hpred, hmem⟩
        · exact Or.inr ⟨hs, hpred, hmem⟩
    · exact Or.inl ⟨q, hq, other, hother, hs, hpred, hmem⟩
  · rintro (⟨q, hq, other, hother, hs, hpred, hmem⟩ | ⟨hs, hpred, hsame⟩)
    · refine ⟨q, hq, other, hother, hs, hpred, ?_⟩
      rw [hterms]
      split
      · next hname =>
          rw [hinserted, ← hname]
          rw [EntityState.terms] at hmem
          simp [hmem]
      · exact hmem
    · refine ⟨p, hp, predicate, hpredicate, hs, hpred, ?_⟩
      rw [hterms, if_pos rfl, hinserted, hsame, Bool.or_true]

end EntityType

end EntityMapping
