import EntityMapping.Proofs.Change.Edit
import EntityMapping.Proofs.Session.Writing
import EntityMapping.Session.Loading

/-!
Taking a value away from a property of many.

One term goes, and all others stay.  A value may be read from several terms: whole numbers of two
datatypes, or a text in two languages.  So a value that was taken away is still read where another
term stands for it.
-/

namespace EntityMapping

/-! ### Values that are shown -/

namespace Value

/-- Whether two values are equal and of one type, as far as terms are read as them. -/
def twin : Value → Value → Bool
  | .datum a, .datum b => a.sameValue b
  | .term a, .term b => a.same b
  | _, _ => false

/-- Different ones of some terms are read as a value. -/
def Shared (v : Value) (ts : List Term) : Prop :=
  ∃ t ∈ ts, ∃ u ∈ ts, t.same u = false ∧ v.twin (.ofTerm t) = true ∧ v.twin (.ofTerm u) = true

/-- Every value is kept, or one that equals it. -/
theorem exists_mem_distinct {vs : List Value} {v : Value} (h : v ∈ vs) :
    ∃ w ∈ distinct vs, w = v ∨ v.same w = true := by
  suffices hfold : ∀ (vs seen : List Value),
      (v ∈ vs ∨ ∃ w ∈ seen, w = v ∨ v.same w = true) →
        ∃ w ∈ vs.foldl (fun seen v => if seen.any v.same then seen else seen ++ [v]) seen,
          w = v ∨ v.same w = true from
    hfold vs [] (Or.inl h)
  intro vs
  induction vs with
  | nil => exact fun seen h => h.resolve_left List.not_mem_nil
  | cons u vs ih =>
      intro seen h
      apply ih
      dsimp only
      rcases h with h | ⟨w, hw, hequal⟩
      · rcases List.mem_cons.mp h with rfl | h
        · right
          split
          · next hseen =>
              obtain ⟨w, hw, hsame⟩ := List.any_eq_true.mp hseen
              exact ⟨w, hw, Or.inr hsame⟩
          · exact ⟨v, List.mem_append_right _ (List.mem_singleton_self v), Or.inl rfl⟩
        · exact Or.inl h
      · right
        split
        · exact ⟨w, hw, hequal⟩
        · exact ⟨w, List.mem_append_left _ hw, hequal⟩

variable {v : Value} {t u : Term}

/-- What is read as a datum is a literal that stands for it. -/
theorem twin_datum_iff {d : Datum} : (Value.datum d).twin (.ofTerm t) = true ↔
    ∃ l, t = .literal l ∧ Property.standsFor (.datum d) l = true := by
  constructor
  · intro h
    cases t with
    | literal l =>
        refine ⟨l, rfl, ?_⟩
        rcases ofTerm_literal l with ⟨found, hfound, hvalue⟩ | ⟨-, hvalue⟩
        · rw [hvalue] at h
          exact Property.standsFor_iff.mpr ⟨d, found, rfl, hfound, h⟩
        · rw [hvalue] at h
          contradiction
    | _ => contradiction
  · rintro ⟨l, rfl, hstands⟩
    obtain ⟨a, b, ha, hb, hsame⟩ := Property.standsFor_iff.mp hstands
    obtain rfl := Value.datum.inj ha
    simpa only [ofTerm, hb, twin] using hsame

/-- What is read as a term is that term. -/
theorem twin_term (h : (Value.term t).twin (.ofTerm u) = true) : t.same u = true := by
  cases u with
  | literal l =>
      rcases ofTerm_literal l with ⟨d, -, hvalue⟩ | ⟨-, hvalue⟩
      · rw [hvalue] at h
        contradiction
      · rw [hvalue] at h
        exact h
  | _ => exact h

theorem twin_ofTerm (h : ∀ l, t ≠ .literal l) : (Value.term t).twin (.ofTerm t) = true := by
  cases t with
  | literal l => exact absurd rfl (h l)
  | _ => simp [ofTerm, twin]

end Value

namespace Term

/-- Only literals are the same without being equal. -/
theorem eq_of_same {t u : Term} (ht : ∀ l, t ≠ .literal l) (h : t.same u = true) : t = u := by
  cases t with
  | literal l => exact absurd rfl (ht l)
  | _ => cases u <;> simp_all [same]

theorem mem_eraseFrom {t u : Term} {ts : List Term} :
    u ∈ t.eraseFrom ts ↔ u ∈ ts ∧ t.same u = false := by
  rw [eraseFrom, List.mem_filter, Bool.not_eq_true']

end Term

namespace Property

variable {p : Property} {v : Value} {stored : List Term} {l : Literal} {t : Term}

theorem Chosen.standsFor (h : p.Chosen stored v l) {d : Datum} (hv : v = .datum d)
    (hsome : ∃ l, .literal l ∈ stored ∧ standsFor v l = true) :
    .literal l ∈ stored ∧ standsFor v l = true := by
  cases h with
  | given hliteral => exact Value.noConfusion (hv.symm.trans hliteral)
  | found hmem hstands => exact ⟨hmem, hstands⟩
  | anew _ hnone =>
      obtain ⟨l, hl, hstands⟩ := hsome
      exact absurd hstands (by simp [hnone l hl])

/-- When the literal of a value is taken away, the value is read from what is left where different
stored terms were read as it.  Only terms other than literals are never taken away. -/
theorem Chosen.left_iff (h : p.Chosen stored v l) :
    (∃ u ∈ (Term.literal l).eraseFrom stored, v.twin (.ofTerm u) = true) ↔
      v.Shared stored ∨ ∃ u ∈ stored, v = .term u ∧ ∀ l, u ≠ .literal l := by
  constructor
  · rintro ⟨u, hu, htwin⟩
    obtain ⟨hstored, hother⟩ := Term.mem_eraseFrom.mp hu
    cases v with
    | datum d =>
        left
        obtain ⟨found, rfl, hstands⟩ := Value.twin_datum_iff.mp htwin
        obtain ⟨hmem, hchosen⟩ := h.standsFor rfl ⟨found, hstored, hstands⟩
        exact ⟨_, hmem, _, hstored, hother, Value.twin_datum_iff.mpr ⟨l, rfl, hchosen⟩, htwin⟩
    | term t =>
        right
        have hsame := Value.twin_term htwin
        cases t with
        | literal given =>
            cases h with
            | given hliteral =>
                obtain rfl := Term.literal.inj (Value.term.inj hliteral)
                simp [hsame] at hother
            | found _ hstands => contradiction
            | anew hv => exact absurd rfl (hv given)
        | _ =>
            obtain rfl := Term.eq_of_same (by simp) hsame
            exact ⟨_, hstored, rfl, by simp⟩
    | _ => contradiction
  · rintro (⟨t, ht, u, hu, hdiffer, htwin, htwin'⟩ | ⟨u, hu, rfl, hliteral⟩)
    · by_cases hsame : (Term.literal l).same t = true
      · refine ⟨u, Term.mem_eraseFrom.mpr ⟨hu, ?_⟩, htwin'⟩
        rw [Bool.eq_false_iff]
        intro hsame'
        have hboth := Term.same_trans (Term.same_comm _ t ▸ hsame) hsame'
        simp [hboth] at hdiffer
      · exact ⟨t, Term.mem_eraseFrom.mpr ⟨ht, Bool.eq_false_iff.mpr hsame⟩, htwin⟩
    · refine ⟨u, Term.mem_eraseFrom.mpr ⟨hu, ?_⟩, Value.twin_ofTerm hliteral⟩
      cases u with
      | literal found => exact absurd rfl (hliteral found)
      | _ => rfl

/-- The term of a reference is an IRI, and it is read from nothing but itself. -/
theorem reference_left (hkind : p.kind = .object) (h : p.termFor v stored = .ok t) :
    p.referenceTerm v = .ok t ∧ (∃ uri, t = .iri uri) ∧
      ∀ u ∈ t.eraseFrom stored, (Value.term t).twin (.ofTerm u) = false := by
  have hterm : p.referenceTerm v = .ok t := by
    simpa only [termFor, toTerm, hkind] using h
  refine ⟨hterm, ?_, fun u hu => ?_⟩
  · unfold referenceTerm at hterm
    split at hterm
    · exact ⟨_, (checkIri_ok hterm).1⟩
    · split at hterm
      · exact ⟨_, (checkIri_ok hterm).1⟩
      · contradiction
  · obtain ⟨-, hother⟩ := Term.mem_eraseFrom.mp hu
    rw [Bool.eq_false_iff]
    intro htwin
    simp [Value.twin_term htwin] at hother

end Property

namespace Session

variable {σ : Type} {s after : Session σ} {id : EntityId} {e : Entity} {name predicate : String}
  {p : Property} {v : Value} {stored : List Term}

/-- What is shown of some terms: the value of each, or one that equals it, and no other values. -/
structure Shows (vs : List Value) (ts : List Term) : Prop where
  read : ∀ w ∈ vs, ∃ t ∈ ts, w = .ofTerm t
  all : ∀ t ∈ ts, ∃ w ∈ vs, w = .ofTerm t ∨ (Value.ofTerm t).same w = true

theorem shows_distinct (ts : List Term) : Shows (Value.distinct (ts.map Value.ofTerm)) ts where
  read w hw := by
    obtain ⟨t, ht, hvalue⟩ := List.mem_map.mp (Value.mem_of_mem_distinct hw)
    exact ⟨t, ht, hvalue.symm⟩
  all t ht := Value.exists_mem_distinct (List.mem_map_of_mem ht)

/-- What is read of a property of many values when these are replaced. -/
theorem getStored_holding (hafter : after.entity? id = some (e.holding name (.several stored)))
    (hw : e.Writable name p predicate) (hmany : p.isFunctional = false) {before : List Term}
    (hstate : e.values.property name = .several before) :
    after.getStored id name = .ok (.several (Value.distinct (stored.map Value.ofTerm))) := by
  have hproperty : (e.holding name (.several stored)).type.property name = .ok p := hw.property
  have hterms : (e.holding name (.several stored)).values.terms name = stored := by
    rw [EntityState.property] at hstate
    rw [EntityState.terms, Entity.holding, EntityState.property, EntityState.lookup_set]
    cases hlookup : e.values.lookup name with
    | none =>
        rw [hlookup] at hstate
        contradiction
    | some state => simp [PropertyState.terms]
  simp only [getStored, hafter]
  refine bind_eq_ok.mpr ⟨p, hproperty, ?_⟩
  rw [hterms, shown, hmany]
  rfl

/-- The term of a value is taken away, and all others stay.  For a property of literals, the value is
read from what is left exactly if different stored terms were read as it, or if it is a term that
cannot be taken away. -/
theorem remove_leaves (he : s.entity? id = some e) (hw : e.Writable name p predicate)
    (hmany : p.isFunctional = false) (hstate : e.values.property name = .several stored)
    (hok : s.remove id name v = .ok after) :
    ∃ t vs, s.Writes id (e.holding name (.several (t.eraseFrom stored)))
        (.remove e.uri predicate t) after ∧
      (∀ u, u ∈ t.eraseFrom stored ↔ u ∈ stored ∧ t.same u = false) ∧
      after.getStored id name = .ok (.several vs) ∧ Shows vs (t.eraseFrom stored) ∧
      (p.kind = .object → p.referenceTerm v = .ok t ∧ (∃ uri, t = .iri uri) ∧
        ∀ w ∈ vs, (Value.term t).twin w = false) ∧
      (p.kind = .literal → (∃ l, t = .literal l ∧ p.Chosen stored v l) ∧
        ((∃ u ∈ t.eraseFrom stored, v.twin (.ofTerm u) = true) ↔
          v.Shared stored ∨ ∃ u ∈ stored, v = .term u ∧ ∀ l, u ≠ .literal l)) := by
  have hterms : e.values.terms name = stored := by
    rw [EntityState.terms, hstate]
    rfl
  obtain ⟨t, hterm⟩ := exists_of_remove he hw hok
  obtain ⟨found, hfound, hwrites⟩ := exists_remove he (hw.remove_eq hmany hterm)
  obtain rfl := Except.ok.inj (hok.symm.trans hfound)
  rw [hterms] at hterm hwrites
  have hshows := shows_distinct (t.eraseFrom stored)
  refine ⟨t, _, hwrites, fun u => Term.mem_eraseFrom,
    getStored_holding hwrites.entity hw hmany hstate, hshows, fun hkind => ?_, fun hkind => ?_⟩
  · obtain ⟨hreference, hiri, hleft⟩ := Property.reference_left hkind hterm
    refine ⟨hreference, hiri, fun w hmem => ?_⟩
    obtain ⟨u, hu, rfl⟩ := hshows.read w hmem
    exact hleft u hu
  · obtain ⟨l, rfl, hchosen⟩ := Property.chosen_of_termFor hkind hterm
    exact ⟨⟨l, rfl, hchosen⟩, hchosen.left_iff⟩

/-! A note with one number in two datatypes, and with a text. -/

open MemoryStore (noteType)

def threes : List Term :=
  [.literal (.typed "3" (Xsd.base ++ "int")), .literal (.typed "3" Xsd.integer),
    .literal (.plain "a")]

def doubledNote : Entity :=
  .loaded noteType "http://e/n1" [("title", .single none), ("tag", .several threes)]

def doubledSession : Session MemoryStore :=
  { ofStore MemoryStore.empty (.ofSequence toString) 8 with entities := [doubledNote] }

theorem remove_leaves_doubled :
    ∃ after t vs, doubledSession.remove 0 "tag" (.datum (.integer 3)) = .ok after ∧
      doubledSession.Writes 0 (doubledNote.holding "tag" (.several (t.eraseFrom threes)))
        (.remove "http://e/n1" "http://e/tag" t) after ∧
      after.getStored 0 "tag" = .ok (.several vs) ∧ Shows vs (t.eraseFrom threes) ∧
      ∃ u ∈ t.eraseFrom threes, (Value.datum (.integer 3)).twin (.ofTerm u) = true := by
  have hw : doubledNote.Writable "tag"
      ⟨"tag", .literal, .many, some "http://e/tag", "Literal"⟩ "http://e/tag" :=
    ⟨rfl, rfl, rfl⟩
  have he : doubledSession.entity? 0 = some doubledNote := rfl
  have hshared : (Value.datum (.integer 3)).Shared threes :=
    ⟨_, List.mem_cons_self, _, List.mem_cons_of_mem _ List.mem_cons_self, by decide, by decide,
      by decide⟩
  obtain ⟨t, vs, hwrites, -, hread, hshows, -, hliteral⟩ :=
    remove_leaves he hw rfl rfl (v := .datum (.integer 3)) rfl
  exact ⟨_, t, vs, rfl, hwrites, hread, hshows, (hliteral rfl).2.mpr (Or.inl hshared)⟩

/-- The number is read before it is taken away, and it is read afterwards. -/
theorem three_is_left :
    ∃ after, doubledSession.remove 0 "tag" (.datum (.integer 3)) = .ok after ∧
      doubledSession.getStored 0 "tag" =
        .ok (.several [.datum (.integer 3), .datum (.text "a")]) ∧
      after.getStored 0 "tag" = .ok (.several [.datum (.integer 3), .datum (.text "a")]) :=
  ⟨_, rfl, rfl, rfl⟩

end Session

end EntityMapping
