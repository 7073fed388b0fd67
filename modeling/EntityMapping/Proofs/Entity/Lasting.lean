import EntityMapping.Proofs.Change.Edit
import EntityMapping.Proofs.Entity.Encoding
import EntityMapping.Proofs.Entity.Initial
import EntityMapping.Proofs.Sparql.Rereading

/-!
Values that last: what is written of them is read as them again.

Texts last under every datatype, as what they are read as; other values under the datatypes of their
type.  A literal that is chosen for such a value beside honest ones is honest, and it can be
written.
-/

namespace EntityMapping

/-! ### Literals that are read again -/

/-- A value and a datatype that give a literal which a request shows, and from whose text the value
is read again. -/
structure Datum.Lasts (d : Datum) (datatype : Option String) : Prop where
  proper : d.Proper
  /-- What is not a number does not even equal itself. -/
  number : (Literal.ofDatum d datatype).Comparable
  /-- Only texts are read by a datatype of any type. -/
  typed : ∀ asked, datatype = some asked →
    d.IsOf asked ∨ (∃ s, d = .text s) ∧ Literal.IsDatatype asked
  legible : ∀ s, d = .text s → Legible s.toList

namespace Datum.Lasts

variable {d e : Datum} {datatype : Option String} {l : Literal}

theorem isOf (h : d.Lasts datatype) :
    (∃ s, d = .text s) ∨ ∀ asked, datatype = some asked → d.IsOf asked := by
  by_cases htext : ∃ s, d = .text s
  · exact Or.inl htext
  · exact Or.inr fun asked hasked => (h.typed asked hasked).resolve_right fun hboth =>
      htext hboth.1

theorem honest (h : d.Lasts datatype) : (Literal.ofDatum d datatype).Honest :=
  Literal.honest_ofDatum h.proper h.isOf

theorem readsBack (h : d.Lasts datatype) : (Literal.ofDatum d datatype).ReadsBack := by
  refine Literal.readsBack_ofDatum h.proper h.isOf (fun asked hasked => ?_) h.legible
  rcases h.typed asked hasked with hof | ⟨-, hdatatype⟩
  · exact Literal.isDatatype_of_isOf hof
  · exact hdatatype

/-- A value under a datatype of its type. -/
theorem of_isOf (hproper : d.Proper) (hnumber : d.isNaN = false) {asked : String}
    (hof : d.IsOf asked) (hlegible : ∀ s, d = .text s → Legible s.toList) :
    d.Lasts (some asked) := by
  have hown : ∀ found, some asked = some found → d.IsOf found :=
    fun found hfound => Option.some.inj hfound ▸ hof
  refine ⟨hproper, fun a ha => ?_, fun found hfound => Or.inl (hown found hfound), hlegible⟩
  rw [Literal.value_ofDatum hown] at ha
  exact Option.some.inj ha ▸ hnumber

/-- Where the datatype is open, that of an honest literal of the same type will do. -/
theorem of_stored (h : d.Lasts none) (hl : l.Honest) (hvalue : l.value = some e)
    (hsame : d.sameType e = true) {found : String} (hfound : l.datatype = some found) :
    d.Lasts (some found) := by
  have hof : d.IsOf found := by
    cases hl with
    | text => contradiction
    | value hproper hof =>
        obtain rfl := Option.some.inj hvalue
        obtain rfl := Option.some.inj hfound
        exact hof.of_sameType hsame
    | unread => contradiction
  have hnumber : d.isNaN = false := h.number d (Literal.value_ofDatum fun _ hnone => nomatch hnone)
  exact of_isOf h.proper hnumber hof h.legible

end Datum.Lasts

namespace Property

variable {p : Property} {stored : List Term} {d : Datum} {l : Literal}

/-- Whatever literal is chosen for a value, it is read again: it can be written, unless it is
stored and need not be. -/
theorem Chosen.lasts (h : p.Chosen stored (.datum d) l) (hd : d.Lasts p.literalDatatype)
    (hstored : ∀ o ∈ stored, o.Honest) :
    l.Honest ∧ l.Comparable ∧ (.literal l ∈ stored ∨ l.ReadsBack) := by
  cases h with
  | given hliteral => contradiction
  | found hmem hstands =>
      obtain ⟨a, b, ha, hb, hsame⟩ := standsFor_iff.mp hstands
      refine ⟨hstored _ hmem l rfl, fun c hc => ?_, Or.inl hmem⟩
      obtain rfl := Option.some.inj (hb.symm.trans hc)
      exact Datum.isNaN_of_sameValue hsame
  | @anew _ _ datatype hdatatype =>
      have hlasts : d.Lasts datatype := by
        rcases hdatatype with rfl | ⟨hopen, hsome, found, hmem, htype, rfl⟩
        · exact hd
        · obtain ⟨asked, hasked⟩ := Option.isSome_iff_exists.mp hsome
          rw [hopen] at hd
          cases hvalue : found.value with
          | none => simp [sameType, hvalue] at htype
          | some e =>
              simp only [sameType, hvalue] at htype
              rw [hasked]
              exact hd.of_stored (hstored _ hmem found rfl) hvalue htype hasked
      exact ⟨hlasts.honest, hlasts.number, Or.inr hlasts.readsBack⟩

/-- A datum for which nothing is stored is written with the declared datatype. -/
theorem Chosen.eq_ofDatum (h : p.Chosen stored (.datum d) l) {asked : String}
    (hasked : p.literalDatatype = some asked)
    (hnew : ∀ a, .literal a ∈ stored → Property.standsFor (.datum d) a = false) :
    l = Literal.ofDatum d (some asked) := by
  cases h with
  | given hliteral => contradiction
  | found hmem hstands => simp [hnew l hmem] at hstands
  | anew _ _ hdatatype =>
      rcases hdatatype with rfl | ⟨hopen, -⟩
      · rw [hasked]
        rfl
      · simp [hasked] at hopen

/-- A datum is never refused by a property of literals. -/
theorem exists_chosen (hkind : p.kind = .literal) (d : Datum) (stored : List Term) :
    ∃ l, p.termFor (.datum d) stored = .ok (.literal l) ∧ p.Chosen stored (.datum d) l := by
  have hterm : ∃ t, p.termFor (.datum d) stored = .ok t := by
    simp only [termFor, toTerm, literalTerm, hkind]
    split
    · exact ⟨_, rfl⟩
    · split <;> exact ⟨_, rfl⟩
  obtain ⟨t, ht⟩ := hterm
  obtain ⟨l, rfl, hchosen⟩ := chosen_of_termFor hkind ht
  exact ⟨l, ht, hchosen⟩

end Property

/-! ### Values of a creation -/

theorem InitialValues.Supplies.eq_of_value {vs : InitialValues} {p : Property} {v w : Value}
    (h : vs.Supplies p w) (hone : p.isFunctional = true) (hv : vs.value? p.name = some v) :
    w = v := by
  cases h with
  | mandatory _ hw => exact Option.some.inj (hw.symm.trans hv)
  | item hmore hitems hw =>
      have hgiven := Property.given_of_supplied hmore hitems
      rw [Property.given_of_not_many (by simpa [Property.isFunctional] using hone), hv] at hgiven
      rw [← hgiven] at hw
      exact List.mem_singleton.mp hw

/-- A property of a single value that is given one has its term. -/
theorem EntityType.Shows.exists_term {t : EntityType} {vs : InitialValues} {state : EntityState}
    (h : t.Shows vs state) {p : Property} (hp : p ∈ t.properties) (hwritable : p.isWritable = true)
    (hone : p.isFunctional = true) {v : Value} (hv : vs.value? p.name = some v) :
    ∃ o, p.toTerm v = .ok o ∧ state.terms p.name = [o] := by
  have hfound : ∃ w o, vs.value? p.name = some w ∧ p.toTerm w = .ok o ∧
      state.terms p.name = [o] := by
    cases hm : p.multiplicity with
    | one => exact h.mandatory p hp hwritable hm
    | optional => exact (h.optional p hp hwritable hm).resolve_left (by simp [hv])
    | many => simp [Property.isFunctional, hm] at hone
  obtain ⟨w, o, hw, ho, hterms⟩ := hfound
  obtain rfl := Option.some.inj (hw.symm.trans hv)
  exact ⟨o, ho, hterms⟩

/-- A type whose entities can be written: its variables are slots, and its predicates are IRIs. -/
structure EntityType.Spelled (t : EntityType) : Prop where
  mapped : t.Mapped
  anchor : IsSlot t.anchor
  names : ∀ p ∈ t.properties, IsSlot p.name
  predicates : ∀ p ∈ t.properties, ∀ predicate, p.predicate = some predicate →
    ValidIri predicate

end EntityMapping
