import EntityMapping.Proofs.Number.Calendar
import EntityMapping.Proofs.Number.Decimal
import EntityMapping.Proofs.Number.Shortest
import EntityMapping.Proofs.Term.Equality
import EntityMapping.Term.Literal

/-!
Literals that stand for what their texts say.

The text of a value is read as the value again, by the datatypes of the value's type.  So two such
literals with one text, one datatype and one language stand for one value.
-/

namespace EntityMapping

namespace Datum

/-- A value that a text can be read as: floating point numbers are in lowest form, and dates are
days of the calendar. -/
def Proper : Datum → Prop
  | .double x => x.Canonical
  | .date d => d.Calendar
  | _ => True

/-- Whether a datatype is one of the value's type. -/
def IsOf (datatype : String) : Datum → Prop
  | .text _ => datatype = Xsd.string ∨ datatype = Xsd.anyURI
  | .integer _ => datatype ∈ Xsd.integerFamily
  | .boolean _ => datatype = Xsd.boolean
  | .double _ => datatype ∈ Xsd.floatFamily
  | .decimal _ => datatype = Xsd.decimal
  | .date _ => datatype = Xsd.date

/-- The value as its text shows it. -/
def asShown : Datum → Datum
  | .decimal d => .decimal d.plain
  | d => d

variable {s datatype : String} {d : Datum}

theorem IsOf.of_sameType {e : Datum} (h : e.IsOf datatype) (hsame : d.sameType e = true) :
    d.IsOf datatype := by
  cases d <;> cases e <;> first | exact h | contradiction

/-! ### Reading by a datatype -/

theorem ofLexical_integer (h : datatype ∈ Xsd.integerFamily) (s : String) :
    ofLexical s datatype = (Number.readInteger s).map .integer := by
  rw [ofLexical, if_pos (List.contains_iff_mem.mpr h)]

theorem ofLexical_double (h : datatype ∈ Xsd.floatFamily) (s : String) :
    ofLexical s datatype = (Binary64.read s).map .double := by
  have hfamily : ∀ d ∈ Xsd.floatFamily,
      Xsd.integerFamily.contains d = false ∧ (d == Xsd.decimal) = false := by decide
  obtain ⟨hinteger, hdecimal⟩ := hfamily datatype h
  rw [ofLexical, hinteger, hdecimal, if_neg Bool.false_ne_true, if_neg Bool.false_ne_true,
    if_pos (List.contains_iff_mem.mpr h)]

theorem ofLexical_decimal (s : String) :
    ofLexical s Xsd.decimal = (Decimal.read s).map .decimal := rfl

theorem ofLexical_date (s : String) : ofLexical s Xsd.date = (Date.read s).map .date := rfl

theorem ofLexical_text (h : datatype = Xsd.string ∨ datatype = Xsd.anyURI) (s : String) :
    ofLexical s datatype = some (.text s) := by
  rcases h with rfl | rfl
  · rfl
  · rfl

/-- What is read by a datatype is of its type. -/
theorem isOf_of_ofLexical (h : ofLexical s datatype = some d) : d.Proper ∧ d.IsOf datatype := by
  unfold ofLexical at h
  split at h
  · next hinteger =>
      obtain ⟨i, -, rfl⟩ := Option.map_eq_some_iff.mp h
      exact ⟨trivial, List.contains_iff_mem.mp hinteger⟩
  split at h
  · next hdecimal =>
      obtain ⟨x, -, rfl⟩ := Option.map_eq_some_iff.mp h
      exact ⟨trivial, beq_iff_eq.mp hdecimal⟩
  split at h
  · next hfloat =>
      obtain ⟨x, hx, rfl⟩ := Option.map_eq_some_iff.mp h
      exact ⟨Binary64.canonical_of_read hx, List.contains_iff_mem.mp hfloat⟩
  split at h
  · next hboolean =>
      obtain rfl := Option.some.inj h
      exact ⟨trivial, beq_iff_eq.mp hboolean⟩
  split at h
  · next hdate =>
      obtain ⟨x, hx, rfl⟩ := Option.map_eq_some_iff.mp h
      exact ⟨Date.calendar_of_read hx, beq_iff_eq.mp hdate⟩
  split at h
  · next htext =>
      obtain rfl := Option.some.inj h
      exact ⟨trivial, ((Bool.or_eq_true _ _).mp htext).imp beq_iff_eq.mp beq_iff_eq.mp⟩
  · contradiction

/-- The text of a value is read as the value, as far as it shows it. -/
theorem ofLexical_lexical (hproper : d.Proper) (hof : d.IsOf datatype) :
    ofLexical d.lexical datatype = some d.asShown := by
  cases d with
  | text s => exact ofLexical_text hof s
  | integer i =>
      rw [ofLexical_integer hof, lexical, Number.readInteger_integerText]
      rfl
  | boolean b =>
      obtain rfl := hof
      cases b <;> rfl
  | double x =>
      rw [ofLexical_double hof, lexical, Binary64.read_text hproper]
      rfl
  | decimal x =>
      obtain rfl := hof
      rw [ofLexical_decimal, lexical, Decimal.read_text]
      rfl
  | date x =>
      obtain rfl := hof
      rw [ofLexical_date, lexical, Date.read_text hproper]
      rfl

theorem lexical_asShown (d : Datum) : d.asShown.lexical = d.lexical := by
  cases d with
  | decimal x => exact x.text_plain
  | _ => rfl

/-- Values with one text and one type are equal, if they are numbers at all. -/
theorem sameValue_of_asShown {e : Datum} (h : d.asShown = e.asShown) (hnumber : d.isNaN = false) :
    d.sameValue e = true := by
  cases d with
  | decimal x =>
      cases e with
      | decimal y =>
          have hplain : x.plain = y.plain := decimal.inj h
          have hx : x ≠ .notANumber := by
            rintro rfl
            contradiction
          have hy : y ≠ .notANumber := by
            rintro rfl
            have hsame := Decimal.sameValue_plain hx
            rw [hplain] at hsame
            cases x <;> contradiction
          have hback := Decimal.sameValue_symm (Decimal.sameValue_plain hy)
          exact Decimal.sameValue_trans (hplain ▸ Decimal.sameValue_plain hx) hback
      | _ => contradiction
  | _ =>
      have he : e.asShown = e := by cases e <;> first | rfl | contradiction
      obtain rfl := h.trans he
      exact sameValue_refl hnumber

end Datum

namespace Literal

variable {s datatype : String} {l a : Literal}

/-- A literal that stands for what its text is read as. -/
inductive Honest : Literal → Prop where
  | text (s : String) (language : Option String) : Honest ⟨s, none, language, some (.text s)⟩
  | value {d : Datum} (hproper : d.Proper) {datatype : String} (hof : d.IsOf datatype) :
      Honest ⟨d.lexical, some datatype, none, some d⟩
  | unread {s datatype : String} (h : Datum.ofLexical s datatype = none) :
      Honest ⟨s, some datatype, none, none⟩

theorem honest_typed (s datatype : String) : (typed s datatype).Honest := by
  unfold typed
  split
  · next value hvalue =>
      obtain ⟨hproper, hof⟩ := Datum.isOf_of_ofLexical hvalue
      exact .value hproper hof
  · next hnone => exact .unread hnone

theorem honest_ofText (s : String) (datatype : Option String) : (ofText s datatype).Honest := by
  cases datatype with
  | none => exact .text s none
  | some datatype => exact honest_typed s datatype

/-- A value is of the type of its own datatype. -/
theorem isOf_datatype {d : Datum} (h : d.datatype = some datatype) : d.IsOf datatype := by
  cases d with
  | text s => contradiction
  | integer i =>
      obtain rfl := Option.some.inj h
      have hfamily : Xsd.integer ∈ Xsd.integerFamily := by decide
      exact hfamily
  | double x =>
      obtain rfl := Option.some.inj h
      have hfamily : Xsd.double ∈ Xsd.floatFamily := by decide
      exact hfamily
  | boolean b => exact (Option.some.inj h).symm
  | decimal x => exact (Option.some.inj h).symm
  | date x => exact (Option.some.inj h).symm

/-- The literal of a value stands for it if its datatype is none of another type. -/
theorem value_ofDatum {d : Datum} {datatype : Option String}
    (hof : ∀ asked, datatype = some asked → d.IsOf asked) :
    (ofDatum d datatype).value = some d := by
  cases d with
  | text s =>
      cases datatype with
      | none => rfl
      | some asked => simp [ofDatum, ofText, typed, Datum.ofLexical_text (hof asked rfl)]
  | _ => rfl

/-- The literal of a value is honest unless the datatype is of another type. -/
theorem honest_ofDatum {d : Datum} (hproper : d.Proper) {datatype : Option String}
    (hof : (∃ s, d = .text s) ∨ ∀ asked, datatype = some asked → d.IsOf asked) :
    (ofDatum d datatype).Honest := by
  by_cases htext : ∃ s, d = .text s
  · obtain ⟨s, rfl⟩ := htext
    exact honest_ofText s datatype
  · have hvalue : ofDatum d datatype = ⟨d.lexical, datatype <|> d.datatype, none, some d⟩ := by
      cases d with
      | text s => exact absurd ⟨s, rfl⟩ htext
      | _ => rfl
    rw [hvalue]
    cases datatype with
    | some asked => exact .value hproper (hof.resolve_left htext asked rfl)
    | none =>
        obtain ⟨own, hown⟩ : ∃ own, d.datatype = some own := by
          cases d with
          | text s => exact absurd ⟨s, rfl⟩ htext
          | _ => exact ⟨_, rfl⟩
        rw [hown]
        exact .value hproper (isOf_datatype hown)

/-- An honest literal of the datatype of texts stands for its text. -/
theorem Honest.value_string (h : l.Honest) (hdatatype : l.datatype = some Xsd.string) :
    l.value = some (.text l.lexical) := by
  cases h with
  | text => contradiction
  | @value d hproper datatype hof =>
      obtain rfl := Option.some.inj hdatatype
      have hread := Datum.ofLexical_lexical hproper hof
      rw [Datum.ofLexical_text (Or.inl rfl)] at hread
      cases d with
      | text s => rfl
      | _ => cases Option.some.inj hread
  | unread hnone =>
      obtain rfl := Option.some.inj hdatatype
      rw [Datum.ofLexical_text (Or.inl rfl)] at hnone
      contradiction

/-- Literals that are one term stand for one value, or for themselves. -/
theorem Honest.value_same (hl : l.Honest) (ha : a.Honest) (hsame : l.same a = true)
    (hnumber : l.Comparable) :
    (l.value = none ∧ a.value = none) ∨
      ∃ d e, l.value = some d ∧ a.value = some e ∧ d.sameValue e = true := by
  simp only [same, Bool.and_eq_true, beq_iff_eq] at hsame
  obtain ⟨⟨hlexical, hdatatype⟩, -⟩ := hsame
  cases hl with
  | text s language =>
      cases ha with
      | text t other => exact Or.inr ⟨_, _, rfl, rfl, beq_iff_eq.mpr hlexical⟩
      | value => contradiction
      | unread => contradiction
  | @value d hproper datatype hof =>
      have hread := Datum.ofLexical_lexical hproper hof
      cases ha with
      | text => contradiction
      | @value e hproper' datatype' hof' =>
          have hread' := Datum.ofLexical_lexical hproper' hof'
          simp only at hlexical
          rw [← hlexical, ← Option.some.inj hdatatype, hread] at hread'
          exact Or.inr ⟨d, e, rfl, rfl,
            Datum.sameValue_of_asShown (Option.some.inj hread') (hnumber d rfl)⟩
      | unread hnone =>
          simp only at hlexical
          rw [← hlexical, ← Option.some.inj hdatatype, hread] at hnone
          contradiction
  | unread hnone =>
      cases ha with
      | text => contradiction
      | @value e hproper datatype' hof =>
          have hread := Datum.ofLexical_lexical hproper hof
          simp only at hlexical
          rw [← hlexical, ← Option.some.inj hdatatype, hnone] at hread
          contradiction
      | unread => exact Or.inl ⟨rfl, rfl⟩

end Literal

end EntityMapping
