import EntityMapping.Entity.Property
import EntityMapping.Proofs.Term.Equality

/-!
What a value is written as beside the terms that a property has already.

A stored literal may stand for the value.  Then it is written, whatever its datatype and its text;
so a value that was read is written as a term that was read.  Everything else is written anew.
-/

namespace EntityMapping

namespace Value

theorem mem_of_mem_distinct {vs : List Value} {v : Value} (h : v ∈ distinct vs) : v ∈ vs := by
  suffices hfold : ∀ (vs seen : List Value),
      v ∈ vs.foldl (fun seen v => if seen.any v.same then seen else seen ++ [v]) seen →
        v ∈ seen ∨ v ∈ vs from
    (hfold vs [] h).resolve_left List.not_mem_nil
  intro vs
  induction vs with
  | nil => exact fun seen h => Or.inl h
  | cons w vs ih =>
      intro seen h
      rcases ih _ h with h | h
      · dsimp only at h
        split at h
        · exact Or.inl h
        · rcases List.mem_append.mp h with h | h
          · exact Or.inl h
          · exact Or.inr (List.mem_cons.mpr (Or.inl (List.mem_singleton.mp h)))
      · exact Or.inr (List.mem_cons_of_mem _ h)

/-- A literal stands for a datum, or for itself. -/
theorem ofTerm_literal (l : Literal) :
    (∃ d, l.value = some d ∧ ofTerm (.literal l) = .datum d) ∨
      l.value = none ∧ ofTerm (.literal l) = .term (.literal l) := by
  cases hvalue : l.value with
  | some d => exact Or.inl ⟨d, rfl, by simp only [ofTerm, hvalue]⟩
  | none => exact Or.inr ⟨rfl, by simp only [ofTerm, hvalue]⟩

end Value

/-! ### What is written -/

namespace Property

variable {p : Property} {v : Value} {stored : List Term} {l : Literal} {t : Term}

theorem mem_literals : l ∈ literals stored ↔ Term.literal l ∈ stored := by
  unfold literals
  rw [List.mem_filterMap]
  constructor
  · rintro ⟨t, ht, hl⟩
    cases t with
    | literal found => exact Option.some.inj hl ▸ ht
    | _ => contradiction
  · exact fun h => ⟨.literal l, h, rfl⟩

theorem standsFor_iff : standsFor v l = true ↔
    ∃ a b, v = .datum a ∧ l.value = some b ∧ a.sameValue b = true := by
  constructor
  · intro h
    unfold standsFor at h
    split at h
    · next a b hb =>
        exact ⟨a, b, rfl, hb, (Bool.and_eq_true_iff.mp h).2⟩
    · contradiction
  · rintro ⟨a, b, rfl, hb, hsame⟩
    simp only [standsFor, hb, Datum.sameType_of_sameValue hsame, hsame, Bool.and_self]

/-- A literal that stands for a datum stands for what is read from it. -/
theorem standsFor_ofTerm (hnumber : l.Comparable) {d : Datum} (hd : l.value = some d) :
    standsFor (.datum d) l = true :=
  standsFor_iff.mpr ⟨d, d, rfl, hd, Datum.sameValue_refl (hnumber d hd)⟩

/-- The literal that a value is written as: a literal is written as it is, a value that stored
literals stand for as one of these, and everything else anew. -/
inductive Chosen (p : Property) (stored : List Term) (v : Value) : Literal → Prop where
  | given {l : Literal} (hv : v = .term (.literal l)) : Chosen p stored v l
  | found {l : Literal} (hmem : .literal l ∈ stored) (hstands : standsFor v l = true) :
      Chosen p stored v l
  | anew (hv : ∀ l, v ≠ .term (.literal l))
      (hnone : ∀ l, .literal l ∈ stored → standsFor v l = false) {datatype : Option String}
      (hdatatype : datatype = p.literalDatatype ∨ p.literalDatatype = none ∧ datatype.isSome ∧
        ∃ l, .literal l ∈ stored ∧ sameType v l = true ∧ l.datatype = datatype) :
      Chosen p stored v (v.toLiteral datatype)

theorem chosen_of_toTerm (hkind : p.kind = .literal)
    (hnone : ∀ l, .literal l ∈ stored → standsFor v l = false) (h : p.toTerm v = .ok t) :
    ∃ l, t = .literal l ∧ p.Chosen stored v l := by
  rw [toTerm, hkind] at h
  dsimp only at h
  unfold literalTerm at h
  split at h
  · next l => exact ⟨l, (Except.ok.inj h).symm, .given rfl⟩
  · contradiction
  · contradiction
  · next hliteral _ _ =>
      exact ⟨_, (Except.ok.inj h).symm, .anew hliteral hnone (Or.inl rfl)⟩

/-- What a value of a literal property is written as. -/
theorem chosen_of_termFor (hkind : p.kind = .literal) (h : p.termFor v stored = .ok t) :
    ∃ l, t = .literal l ∧ p.Chosen stored v l := by
  unfold termFor at h
  rw [hkind] at h
  split at h
  · contradiction
  · next l _ => exact ⟨l, (Except.ok.inj h).symm, .given rfl⟩
  · next v _ _ _ hgiven =>
      cases hfind : (literals stored).find? (standsFor v) with
      | some l =>
          rw [hfind] at h
          have hmem := mem_literals.mp (List.mem_of_find?_eq_some hfind)
          exact ⟨l, (Except.ok.inj h).symm, .found hmem (List.find?_some hfind)⟩
      | none =>
          rw [hfind] at h
          have hnone : ∀ l, .literal l ∈ stored → standsFor v l = false := by
            intro l hl
            have hnot := List.find?_eq_none.mp hfind l (mem_literals.mpr hl)
            simpa using hnot
          dsimp only at h
          split at h
          · next datatype hdatatype =>
              obtain ⟨hopen, htyped⟩ := Option.ite_none_right_eq_some.mp hdatatype
              obtain ⟨l, hl, hfound⟩ := List.exists_of_findSome?_eq_some htyped
              obtain ⟨hl, htype⟩ := List.mem_filter.mp hl
              refine ⟨_, (Except.ok.inj h).symm, .anew hgiven hnone
                (Or.inr ⟨by simpa using hopen, rfl, l, mem_literals.mp hl, htype, hfound⟩)⟩
          · exact chosen_of_toTerm hkind hnone h

/-- What is read from a stored literal is written as a stored literal again. -/
theorem termFor_ofTerm (hkind : p.kind = .literal) (hl : .literal l ∈ stored)
    (hnumber : l.Comparable) :
    ∃ t ∈ stored, p.termFor (.ofTerm (.literal l)) stored = .ok t := by
  rcases Value.ofTerm_literal l with ⟨d, hd, hvalue⟩ | ⟨-, hvalue⟩
  · rw [hvalue]
    cases hfind : (literals stored).find? (standsFor (.datum d)) with
    | some found =>
        refine ⟨.literal found, mem_literals.mp (List.mem_of_find?_eq_some hfind), ?_⟩
        simp only [termFor, hkind, hfind]
    | none =>
        have hnot := List.find?_eq_none.mp hfind l (mem_literals.mpr hl)
        exact absurd (standsFor_ofTerm hnumber hd) hnot
  · exact ⟨.literal l, hl, by simp only [hvalue, termFor, hkind]⟩

end Property

end EntityMapping
