import EntityMapping.Proofs.Entity.Draft

/-!
What a creation keeps of the values that it is given.

A draft only gains terms: no later value takes away that a property has one.  So every property that
was given a value has a term in the first state of the entity, and a mandatory one that can be
written always has.
-/

namespace EntityMapping

theorem PropertyState.terms_insert_ne_nil (s : PropertyState) (t : Term) :
    (s.insert t).terms ≠ [] := by
  cases s with
  | single value => exact List.cons_ne_nil t []
  | several values =>
      intro hnil
      have hmember := Term.memberOf_insertInto t values t
      have hterms : t.insertInto values = [] := hnil
      rw [hterms, Term.same_refl, Bool.or_true] at hmember
      contradiction

namespace EntityState

variable {s s' s'' : EntityState} {name : String}

/-- A state that names the same properties as another and leaves none of those without terms that
have some there. -/
structure Gains (s s' : EntityState) : Prop where
  names : s'.map Prod.fst = s.map Prod.fst
  terms : ∀ name, s.terms name ≠ [] → s'.terms name ≠ []

theorem Gains.refl (s : EntityState) : s.Gains s :=
  ⟨rfl, fun _ h => h⟩

theorem Gains.trans (h : s.Gains s') (hmore : s'.Gains s'') : s.Gains s'' :=
  ⟨hmore.names.trans h.names, fun name hs => hmore.terms name (h.terms name hs)⟩

theorem terms_insert_self (h : name ∈ s.map Prod.fst) (t : Term) :
    (s.insert name t).terms name ≠ [] := by
  rw [terms_insert h, if_pos rfl]
  exact PropertyState.terms_insert_ne_nil _ t

theorem gains_insert (h : name ∈ s.map Prod.fst) (t : Term) : s.Gains (s.insert name t) where
  names := names_set s name _
  terms other hother := by
    by_cases hname : other = name
    · exact hname ▸ terms_insert_self h t
    · rwa [terms_insert h, if_neg hname]

end EntityState

namespace EntityType

variable {t : EntityType} {uri : String} {vs : InitialValues} {p : Property} {d after : Draft}

/-! ### Mandatory values -/

theorem gains_mandatory {o : String → Term} {ps : List Property} {s : EntityState}
    (hps : ∀ p ∈ ps, p.name ∈ s.map Prod.fst) :
    s.Gains (ps.foldl (fun s p => s.insert p.name (o p.name)) s) ∧
      ∀ p ∈ ps, (ps.foldl (fun s p => s.insert p.name (o p.name)) s).terms p.name ≠ [] := by
  induction ps generalizing s with
  | nil => exact ⟨.refl s, nofun⟩
  | cons p ps ih =>
      have hfirst := EntityState.gains_insert (hps p List.mem_cons_self) (o p.name)
      obtain ⟨hrest, hterms⟩ := ih fun q hq =>
        hfirst.names ▸ hps q (List.mem_cons_of_mem p hq)
      refine ⟨hfirst.trans hrest, fun q hq => ?_⟩
      rcases List.mem_cons.mp hq with rfl | hq
      · exact hrest.terms q.name (EntityState.terms_insert_self (hps q List.mem_cons_self) _)
      · exact hterms q hq

/-! ### Other values -/

theorem gains_value {v : Value} (hp : p.name ∈ d.state.map Prod.fst)
    (hok : t.draftValue uri p d v = .ok after) :
    d.state.Gains after.state ∧ after.state.terms p.name ≠ [] := by
  obtain ⟨o, -, hok⟩ := bind_eq_ok.mp hok
  obtain ⟨text, -, hok⟩ := bind_eq_ok.mp hok
  obtain rfl := pure_eq_ok.mp hok
  exact ⟨EntityState.gains_insert hp o, EntityState.terms_insert_self hp o⟩

theorem gains_values {items : List Value} (hp : p.name ∈ d.state.map Prod.fst)
    (hok : items.foldlM (t.draftValue uri p) d = .ok after) :
    d.state.Gains after.state ∧ (items ≠ [] → after.state.terms p.name ≠ []) := by
  induction items generalizing d with
  | nil =>
      obtain rfl := Except.ok.inj hok
      exact ⟨.refl _, fun h => absurd rfl h⟩
  | cons v items ih =>
      rw [List.foldlM_cons] at hok
      obtain ⟨next, hnext, hok⟩ := bind_eq_ok.mp hok
      obtain ⟨hfirst, hterms⟩ := gains_value hp hnext
      obtain ⟨hrest, -⟩ := ih (hfirst.names ▸ hp) hok
      exact ⟨hfirst.trans hrest, fun _ => hrest.terms p.name hterms⟩

theorem gains_property (hp : p.name ∈ d.state.map Prod.fst)
    (hok : t.draftProperty uri vs d p = .ok after) :
    d.state.Gains after.state ∧ (p.isWritable = true → p.multiplicity ≠ .one →
      (∃ v, vs.Supplies p v) → after.state.terms p.name ≠ []) := by
  unfold draftProperty at hok
  by_cases hskip : (!p.isWritable || p.multiplicity == .one) = true
  · rw [if_pos hskip] at hok
    obtain rfl := pure_eq_ok.mp hok
    refine ⟨.refl _, fun hwritable hmany _ => ?_⟩
    rw [hwritable, Bool.not_true, Bool.false_or, beq_iff_eq] at hskip
    exact absurd hskip hmany
  · rw [if_neg hskip] at hok
    obtain ⟨items, hitems, hok⟩ := bind_eq_ok.mp hok
    obtain ⟨hgains, hterms⟩ := gains_values hp hok
    refine ⟨hgains, fun _ hmany hsupplied => hterms ?_⟩
    obtain ⟨v, hv⟩ := hsupplied
    cases hv with
    | mandatory hone => exact absurd hone hmany
    | item _ hgiven hmem =>
        rw [hitems] at hgiven
        exact List.ne_nil_of_mem (Except.ok.inj hgiven ▸ hmem)

theorem gains_properties {ps : List Property} (hps : ∀ p ∈ ps, p.name ∈ d.state.map Prod.fst)
    (hok : ps.foldlM (t.draftProperty uri vs) d = .ok after) :
    d.state.Gains after.state ∧ ∀ p ∈ ps, p.isWritable = true → p.multiplicity ≠ .one →
      (∃ v, vs.Supplies p v) → after.state.terms p.name ≠ [] := by
  induction ps generalizing d with
  | nil =>
      obtain rfl := Except.ok.inj hok
      exact ⟨.refl _, nofun⟩
  | cons p ps ih =>
      rw [List.foldlM_cons] at hok
      obtain ⟨next, hnext, hok⟩ := bind_eq_ok.mp hok
      obtain ⟨hfirst, hterms⟩ := gains_property (hps p List.mem_cons_self) hnext
      obtain ⟨hrest, hothers⟩ := ih
        (fun q hq => hfirst.names ▸ hps q (List.mem_cons_of_mem p hq)) hok
      refine ⟨hfirst.trans hrest, fun q hq hwritable hmany hsupplied => ?_⟩
      rcases List.mem_cons.mp hq with rfl | hq
      · exact hrest.terms q.name (hterms hwritable hmany hsupplied)
      · exact hothers q hq hwritable hmany hsupplied

/-- What was supplied for a property that can be written is there, and what had to be supplied
was. -/
theorem terms_of_draft (h : t.Writes uri vs) (hok : t.draft uri vs = .ok d)
    (hp : p ∈ t.properties) (hwritable : p.isWritable = true)
    (hgiven : p.multiplicity ≠ .one → ∃ v, vs.Supplies p v) : d.state.terms p.name ≠ [] := by
  obtain ⟨text, bound, state, htext, hbind, hok⟩ := draft_ok h hok
  obtain ⟨o, -, -, rfl⟩ := exists_binds h htext hbind
  have hnone : ∀ q ∈ t.properties, q.name ∈ (EntityState.none t.properties).map Prod.fst :=
    fun q hq => (EntityState.fits_none h.regular.names_nodup).mem hq
  obtain ⟨hgains, hmandatory⟩ := gains_mandatory (o := o)
    fun q hq => hnone q (mem_mandatoryProperties hq).1
  obtain ⟨hrest, hothers⟩ := gains_properties
    (d := ⟨_, [bound.render]⟩) (fun q hq => hgains.names ▸ hnone q hq) hok
  by_cases hone : p.multiplicity = .one
  · refine hrest.terms p.name (hmandatory p (List.mem_filter.mpr ⟨hp, ?_⟩))
    rw [hone, hwritable]
    rfl
  · exact hothers p hp hwritable hone (hgiven hone)

end EntityType

end EntityMapping
