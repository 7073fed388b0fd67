import EntityMapping.Proofs.Entity.Draft

/-!
The state that a creation begins with, term by term.

A property that can be written has exactly the terms of the values that it is given: the one value
that it needs, the one that it may have, or the elements of a list, each once.  What counts as
mandatory for the templates is what the multiplicities say, so no value is bound twice or left out.
-/

namespace EntityMapping

namespace PropertyState

variable {os : List Term}

/-- The state with more terms, one after the other. -/
def insertAll (os : List Term) (s : PropertyState) : PropertyState :=
  os.foldl (fun s o => s.insert o) s

theorem terms_insertAll_several (values : List Term) :
    (insertAll os (.several values)).terms =
      os.foldl (fun seen o => o.insertInto seen) values := by
  induction os generalizing values with
  | nil => rfl
  | cons o os ih => exact ih _

end PropertyState

namespace Property

variable {p : Property} {vs : InitialValues}

/-- The values that a creation is given for a property: one at most, or the elements of a list. -/
def given (p : Property) (vs : InitialValues) : List Value :=
  match p.multiplicity, vs.value? p.name with
  | .many, some (.list items) => items
  | .many, _ => []
  | _, v => v.toList

theorem given_of_not_many (h : p.multiplicity ≠ .many) :
    p.given vs = (vs.value? p.name).toList := by
  unfold given
  split
  · next hmany _ => exact absurd hmany h
  · next hmany _ => exact absurd hmany h
  · rfl

/-- What is supplied for a property that need not have a value is what is given for it. -/
theorem given_of_supplied (hone : p.multiplicity ≠ .one) {items : List Value}
    (h : p.supplied (vs.value? p.name) = .ok items) : p.given vs = items := by
  unfold supplied isNullable at h
  unfold given
  cases hm : p.multiplicity with
  | one => exact absurd hm hone
  | optional =>
      cases hv : vs.value? p.name with
      | none => simpa [hv] using h
      | some v => simpa [hv, hm] using h
  | many =>
      cases hv : vs.value? p.name with
      | none => simpa [hv] using h
      | some v =>
          have hmany : (p.multiplicity == .optional) = false := by rw [hm]; rfl
          simp only [hv, hmany] at h
          cases v with
          | list items => cases items <;> simpa [Value.isTruthy] using h
          | nothing => simpa [Value.isTruthy] using h
          | datum _ | term _ | entity _ _ =>
              split at h
              · contradiction
              · split at h
                · exact Except.ok.inj h
                · cases h

/-- The terms of what a property is given; one that cannot be written gets none. -/
def Encodes (p : Property) (vs : InitialValues) (os : List Term) : Prop :=
  if p.isWritable then (p.given vs).mapM p.toTerm = .ok os else os = []

/-- A property that has a value of its own, behind the mandatory ones. -/
def IsLater (p : Property) : Prop :=
  p.isWritable = true ∧ p.multiplicity ≠ .one

end Property

namespace EntityType

variable {t : EntityType} {uri : String} {vs : InitialValues} {p : Property} {d after : Draft}

/-! ### Mandatory values -/

theorem names_mandatory (o : String → Term) (ps : List Property) (s : EntityState) :
    (ps.foldl (fun s p => s.insert p.name (o p.name)) s).map Prod.fst = s.map Prod.fst := by
  induction ps generalizing s with
  | nil => rfl
  | cons p ps ih => exact (ih _).trans (EntityState.names_set _ _ _)

theorem property_mandatory {o : String → Term} {ps : List Property} {s : EntityState}
    (hnames : ∀ p ∈ ps, p.name ∈ s.map Prod.fst) (hdistinct : (ps.map Property.name).Nodup) :
    (∀ p ∈ ps, (ps.foldl (fun s p => s.insert p.name (o p.name)) s).property p.name =
        (s.property p.name).insert (o p.name)) ∧
      ∀ name, name ∉ ps.map Property.name →
        (ps.foldl (fun s p => s.insert p.name (o p.name)) s).property name = s.property name := by
  induction ps generalizing s with
  | nil => exact ⟨nofun, fun _ _ => rfl⟩
  | cons p ps ih =>
      rw [List.map_cons, List.nodup_cons] at hdistinct
      have hp := hnames p List.mem_cons_self
      have hfirst : ∀ name, (s.insert p.name (o p.name)).property name = if name = p.name then
          (s.property p.name).insert (o p.name) else s.property name :=
        EntityState.property_set s hp _
      obtain ⟨hown, hothers⟩ := ih (s := s.insert p.name (o p.name)) (fun q hq => by
        rw [EntityState.insert, EntityState.names_set]
        exact hnames q (List.mem_cons_of_mem p hq)) hdistinct.2
      constructor
      · intro q hq
        rcases List.mem_cons.mp hq with rfl | hq
        · rw [List.foldl_cons, hothers _ hdistinct.1, hfirst, if_pos rfl]
        · have hne : q.name ≠ p.name := fun heq => hdistinct.1 (heq ▸ List.mem_map_of_mem hq)
          rw [List.foldl_cons, hown q hq, hfirst, if_neg hne]
      · intro name hname
        rw [List.map_cons, List.mem_cons, not_or] at hname
        rw [List.foldl_cons, hothers name hname.2, hfirst, if_neg hname.1]

/-! ### Other values -/

/-- One draft continues another: a property gets more terms, and all else stays as it is. -/
structure Continues (d : Draft) (p : Property) (os : List Term) (after : Draft) : Prop where
  names : after.state.map Prod.fst = d.state.map Prod.fst
  own : after.state.property p.name = (d.state.property p.name).insertAll os
  others : ∀ name, name ≠ p.name → after.state.property name = d.state.property name

theorem Continues.refl (d : Draft) (p : Property) : Continues d p [] d :=
  ⟨rfl, rfl, fun _ _ => rfl⟩

theorem continues_value {v : Value} (hp : p.name ∈ d.state.map Prod.fst)
    (hok : t.draftValue uri p d v = .ok after) :
    ∃ o, p.toTerm v = .ok o ∧ Continues d p [o] after := by
  obtain ⟨o, ho, hok⟩ := bind_eq_ok.mp hok
  obtain ⟨text, -, hok⟩ := bind_eq_ok.mp hok
  obtain rfl := pure_eq_ok.mp hok
  have hproperty := EntityState.property_set d.state hp ((d.state.property p.name).insert o)
  refine ⟨o, ho, EntityState.names_set _ _ _, ?_, fun name hname => ?_⟩
  · exact (hproperty p.name).trans (if_pos rfl)
  · exact (hproperty name).trans (if_neg hname)

theorem continues_values {items : List Value} (hp : p.name ∈ d.state.map Prod.fst)
    (hok : items.foldlM (t.draftValue uri p) d = .ok after) :
    ∃ os, items.mapM p.toTerm = .ok os ∧ Continues d p os after := by
  induction items generalizing d with
  | nil =>
      obtain rfl := Except.ok.inj hok
      exact ⟨[], rfl, .refl d p⟩
  | cons v items ih =>
      rw [List.foldlM_cons] at hok
      obtain ⟨next, hnext, hok⟩ := bind_eq_ok.mp hok
      obtain ⟨o, ho, hfirst⟩ := continues_value hp hnext
      obtain ⟨os, hos, hrest⟩ := ih (hfirst.names ▸ hp) hok
      refine ⟨o :: os, ?_, hrest.names.trans hfirst.names, ?_, fun name hname => ?_⟩
      · rw [List.mapM_cons, ho, hos]
        rfl
      · rw [hrest.own, hfirst.own]
        rfl
      · exact (hrest.others name hname).trans (hfirst.others name hname)

/-- A property gets the terms of what it is given, unless it is mandatory or cannot be written. -/
theorem continues_property (hp : p.name ∈ d.state.map Prod.fst)
    (hok : t.draftProperty uri vs d p = .ok after) :
    ∃ os, Continues d p os after ∧ (p.IsLater → p.Encodes vs os) ∧ (¬ p.IsLater → os = []) := by
  unfold draftProperty at hok
  by_cases hlater : p.IsLater
  · have hgo : (!p.isWritable || p.multiplicity == .one) = false := by simp [hlater.1, hlater.2]
    rw [hgo] at hok
    obtain ⟨items, hitems, hok⟩ := bind_eq_ok.mp hok
    obtain ⟨os, hos, hcontinues⟩ := continues_values hp hok
    refine ⟨os, hcontinues, fun _ => ?_, fun hnot => absurd hlater hnot⟩
    rw [Property.Encodes, if_pos hlater.1, Property.given_of_supplied hlater.2 hitems, hos]
  · have hskip : (!p.isWritable || p.multiplicity == .one) = true := by
      by_contra hgo
      simp only [Bool.or_eq_true, Bool.not_eq_true', beq_iff_eq, not_or, Bool.not_eq_false] at hgo
      exact hlater hgo
    rw [if_pos hskip] at hok
    obtain rfl := pure_eq_ok.mp hok
    exact ⟨[], .refl d p, fun h => absurd h hlater, fun _ => rfl⟩

theorem continues_properties {ps : List Property} (hnames : ∀ p ∈ ps, p.name ∈ d.state.map Prod.fst)
    (hdistinct : (ps.map Property.name).Nodup)
    (hok : ps.foldlM (t.draftProperty uri vs) d = .ok after) :
    (∀ p ∈ ps, ∃ os, after.state.property p.name = (d.state.property p.name).insertAll os ∧
        (p.IsLater → p.Encodes vs os) ∧ (¬ p.IsLater → os = [])) ∧
      ∀ name, name ∉ ps.map Property.name →
        after.state.property name = d.state.property name := by
  induction ps generalizing d with
  | nil =>
      obtain rfl := Except.ok.inj hok
      exact ⟨nofun, fun _ _ => rfl⟩
  | cons p ps ih =>
      rw [List.foldlM_cons] at hok
      obtain ⟨next, hnext, hok⟩ := bind_eq_ok.mp hok
      rw [List.map_cons, List.nodup_cons] at hdistinct
      obtain ⟨os, hfirst, hgiven⟩ := continues_property (hnames p List.mem_cons_self) hnext
      obtain ⟨hown, hothers⟩ := ih (fun q hq =>
        hfirst.names ▸ hnames q (List.mem_cons_of_mem p hq)) hdistinct.2 hok
      constructor
      · intro q hq
        rcases List.mem_cons.mp hq with rfl | hq
        · exact ⟨os, (hothers _ hdistinct.1).trans hfirst.own, hgiven⟩
        · have hne : q.name ≠ p.name := fun heq => hdistinct.1 (heq ▸ List.mem_map_of_mem hq)
          rw [← hfirst.others q.name hne]
          exact hown q hq
      · intro name hname
        rw [List.map_cons, List.mem_cons, not_or] at hname
        exact (hothers name hname.2).trans (hfirst.others name hname.1)

/-! ### All of a draft -/

/-- The state behind the mandatory values has these and nothing else. -/
theorem property_of_bindMandatory (h : t.Regular) {template bound : Template} {state : EntityState}
    (hbind : t.bindMandatory vs t.synthesis.mandatory template (EntityState.none t.properties) =
      .ok (bound, state)) :
    state.map Prod.fst = t.properties.map Property.name ∧
      (∀ p ∈ t.mandatoryProperties, ∃ v o, vs.value? p.name = some v ∧ p.toTerm v = .ok o ∧
        state.property p.name = (PropertyState.none p).insert o) ∧
      ∀ p ∈ t.properties, p ∉ t.mandatoryProperties →
        state.property p.name = PropertyState.none p := by
  have hnames := h.names_nodup
  have hfits := EntityState.fits_none hnames
  rw [h.mandatory_eq] at hbind
  obtain ⟨o, hbound, -, -, hstate⟩ := bindMandatory_ok (mandatoryNames_nodup h) hbind
  rw [List.foldl_map] at hstate
  obtain ⟨hown, hothers⟩ := property_mandatory (o := o) (s := EntityState.none t.properties)
    (fun p hp => hfits.mem (mem_mandatoryProperties hp).1) (mandatoryNames_nodup h)
  rw [hstate]
  refine ⟨(names_mandatory o _ _).trans hfits.names, fun p hp => ?_, fun p hp hnot => ?_⟩
  · have hin := (mem_mandatoryProperties hp).1
    obtain ⟨-, q, v, hq, hv, hterm⟩ := hbound p.name (List.mem_map_of_mem hp)
    rw [h.property_eq hin] at hq
    obtain rfl := Except.ok.inj hq
    exact ⟨v, _, hv, hterm, by rw [hown p hp, EntityState.property_none hnames hin]⟩
  · rw [hothers p.name, EntityState.property_none hnames hp]
    intro hname
    obtain ⟨q, hq, heq⟩ := List.mem_map.mp hname
    obtain rfl := List.inj_on_of_nodup_map hnames (mem_mandatoryProperties hq).1 hp heq
    exact hnot hq

/-- The state of a draft has of every property the terms of what it is given; a mandatory one that
can be written is given a value. -/
theorem property_draft (h : t.Regular) (hok : t.draft uri vs = .ok d) (hp : p ∈ t.properties) :
    ∃ os, p.Encodes vs os ∧
      d.state.property p.name = (PropertyState.none p).insertAll os ∧
      (p.isWritable = true → p.multiplicity = .one → os.length = 1) := by
  obtain ⟨text, htext, hok⟩ := bind_eq_ok.mp hok
  obtain ⟨template, htemplate, hok⟩ := bind_eq_ok.mp hok
  obtain ⟨⟨bound, state⟩, hbind, hok⟩ := bind_eq_ok.mp hok
  obtain ⟨hnames, hmandatory, hothers⟩ := property_of_bindMandatory h hbind
  obtain ⟨hown, -⟩ := continues_properties (d := ⟨state, [bound.render]⟩)
    (fun q hq => hnames ▸ List.mem_map_of_mem hq) h.names_nodup hok
  obtain ⟨os, hproperty, hlater, hnothing⟩ := hown p hp
  by_cases hwritable : p.isWritable = true
  · by_cases hone : p.multiplicity = .one
    · have hmem : p ∈ t.mandatoryProperties :=
        List.mem_filter.mpr ⟨hp, by rw [hone, hwritable]; rfl⟩
      obtain ⟨v, o, hv, ho, hstate⟩ := hmandatory p hmem
      obtain rfl := hnothing fun hnot => hnot.2 hone
      refine ⟨[o], ?_, hproperty.trans hstate, fun _ _ => rfl⟩
      rw [Property.Encodes, if_pos hwritable, Property.given_of_not_many (by simp [hone]), hv,
        Option.toList_some, List.mapM_cons, ho]
      rfl
    · have hnot : p ∉ t.mandatoryProperties := fun hmem => hone (mem_mandatoryProperties hmem).2.1
      refine ⟨os, hlater ⟨hwritable, hone⟩, ?_, fun _ h => absurd h hone⟩
      rw [hproperty, ← hothers p hp hnot]
  · have hnot : p ∉ t.mandatoryProperties := fun hmem =>
      hwritable (mem_mandatoryProperties hmem).2.2
    obtain rfl := hnothing fun hlater => hwritable hlater.1
    refine ⟨[], ?_, ?_, fun hw => absurd hw hwritable⟩
    · rw [Property.Encodes, if_neg hwritable]
    · rw [hproperty, ← hothers p hp hnot]

/-- What the state of a new entity shows of the values that were given. -/
structure Shows (t : EntityType) (vs : InitialValues) (s : EntityState) : Prop where
  /-- A mandatory property that can be written has the one term of its value. -/
  mandatory : ∀ p ∈ t.properties, p.isWritable = true → p.multiplicity = .one →
    ∃ v o, vs.value? p.name = some v ∧ p.toTerm v = .ok o ∧ s.terms p.name = [o]
  /-- One that may be missing has no term, or that of its value. -/
  optional : ∀ p ∈ t.properties, p.isWritable = true → p.multiplicity = .optional →
    (vs.value? p.name = none ∧ s.terms p.name = []) ∨
      ∃ v o, vs.value? p.name = some v ∧ p.toTerm v = .ok o ∧ s.terms p.name = [o]
  /-- One of many values has the terms of the elements, each once. -/
  several : ∀ p ∈ t.properties, p.isWritable = true → p.multiplicity = .many →
    ∃ os, (p.given vs).mapM p.toTerm = .ok os ∧
      s.terms p.name = os.foldl (fun seen o => o.insertInto seen) []
  /-- One that cannot be written has none. -/
  readOnly : ∀ p ∈ t.properties, p.isWritable = false → s.terms p.name = []

/-- Of a property with one value at most, the state has just the term of what it is given. -/
theorem terms_of_encodes (hwritable : p.isWritable = true) (hone : p.multiplicity ≠ .many)
    {os : List Term} (hos : p.Encodes vs os) :
    (vs.value? p.name = none ∧ os = [] ∧ ((PropertyState.none p).insertAll os).terms = []) ∨
      ∃ v o, vs.value? p.name = some v ∧ p.toTerm v = .ok o ∧
        ((PropertyState.none p).insertAll os).terms = [o] := by
  have hsingle : PropertyState.none p = .single none := by
    rw [PropertyState.none, Property.isFunctional, if_pos (by simpa using hone)]
  rw [Property.Encodes, if_pos hwritable, Property.given_of_not_many hone] at hos
  rw [hsingle]
  cases hv : vs.value? p.name with
  | none =>
      rw [hv, Option.toList_none, List.mapM_nil, pure_eq_ok] at hos
      obtain rfl := hos
      exact Or.inl ⟨rfl, rfl, rfl⟩
  | some v =>
      rw [hv, Option.toList_some, List.mapM_cons] at hos
      obtain ⟨o, ho, hos⟩ := bind_eq_ok.mp hos
      rw [List.mapM_nil] at hos
      obtain rfl := pure_eq_ok.mp hos
      exact Or.inr ⟨v, o, rfl, ho, rfl⟩

theorem shows_of_draft (h : t.Regular) (hok : t.draft uri vs = .ok d) : t.Shows vs d.state where
  mandatory p hp hwritable hone := by
    obtain ⟨os, hos, hproperty, hlength⟩ := property_draft h hok hp
    rw [EntityState.terms, hproperty]
    rcases terms_of_encodes hwritable (by simp [hone]) hos with ⟨-, rfl, -⟩ | hterm
    · cases hlength hwritable hone
    · exact hterm
  optional p hp hwritable hoptional := by
    obtain ⟨os, hos, hproperty, -⟩ := property_draft h hok hp
    rw [EntityState.terms, hproperty]
    exact (terms_of_encodes hwritable (by simp [hoptional]) hos).imp_left
      fun hnone => ⟨hnone.1, hnone.2.2⟩
  several p hp hwritable hmany := by
    obtain ⟨os, hos, hproperty, -⟩ := property_draft h hok hp
    rw [Property.Encodes, if_pos hwritable] at hos
    refine ⟨os, hos, ?_⟩
    have hseveral : PropertyState.none p = .several [] := by
      rw [PropertyState.none, Property.isFunctional, if_neg (by simp [hmany])]
    rw [EntityState.terms, hproperty, hseveral, PropertyState.terms_insertAll_several]
  readOnly p hp hreadOnly := by
    obtain ⟨os, hos, hproperty, -⟩ := property_draft h hok hp
    rw [Property.Encodes, if_neg (by simp [hreadOnly])] at hos
    rw [EntityState.terms, hproperty, hos]
    exact PropertyState.terms_none p

end EntityType

end EntityMapping
