import EntityMapping.Proofs.Sparql.Legible
import EntityMapping.Proofs.Term.Honest

/-!
Honest literals are read again as they are.

The text of a value holds nothing that a request would not show.  Only numbers that are not finite
are shown in another spelling than their own, and both spellings are understood.
-/

namespace EntityMapping

namespace Literal

variable {c : Char} {cs : List Char} {l : Literal} {datatype : String}

/-! ### Words for numbers -/

/-- A word with a character that a text does not have is nowhere in the text. -/
theorem replaced_of_not_mem {pattern replacement : List Char} (hc : c ∈ pattern) (h : c ∉ cs) :
    replaced pattern replacement cs = cs := by
  induction cs with
  | nil => rfl
  | cons d cs ih =>
      have hopens : ¬pattern <+: d :: cs := fun hopens => h (hopens.subset hc)
      rw [replaced_cons hopens, ih fun hmem => h (List.mem_cons_of_mem d hmem)]

/-- All the words that are respelled have the letter `n`. -/
theorem shown_of_not_mem (h : 'n' ∉ l.lexical.toList) : l.shown = l.lexical.toList := by
  rw [shown]
  rcases spellNonFinite_cases l with hsame | ⟨-, hnan | hinf⟩
  · exact hsame _
  · rw [hnan, replaced_of_not_mem (c := 'n') (by decide) h]
  · rw [hinf, replaced_of_not_mem (c := 'n') (by decide) h,
      replaced_of_not_mem (c := 'n') (by decide) h]

theorem shown_of_not_read (h : Binary64.read l.lexical = none) : l.shown = l.lexical.toList := by
  rw [shown, spellNonFinite, h, ite_self]

/-- Only numbers are respelled. -/
theorem shown_of_not_numeric
    (h : ∀ d, l.datatype = some d → d ∉ Xsd.decimal :: Xsd.floatFamily) :
    l.shown = l.lexical.toList := by
  have hnumeric : ((Xsd.decimal :: Xsd.floatFamily).any fun d => l.datatype == some d) = false := by
    refine Bool.eq_false_iff.mpr fun hany => ?_
    obtain ⟨d, hd, heq⟩ := List.any_eq_true.mp hany
    exact h d (beq_iff_eq.mp heq) hd
  rw [shown, spellNonFinite, hnumeric]
  rfl

/-- A word for what is not finite is a decimal number, too. -/
theorem read_of_word {s : String}
    (h : (Number.takeSign (Text.trim s.toList)).2.map Char.toLower ∈ Binary64.words) :
    Decimal.read s ≠ none := by
  have hplain : ∀ c ∈ Text.trim s.toList, (c != '_') = true := by
    refine Number.forall_takeSign rfl rfl fun c hc => bne_iff_ne.mpr ?_
    rintro rfl
    have hmarks : ∀ word ∈ Binary64.words, Char.toLower '_' ∉ word := by decide
    exact hmarks _ h (List.mem_map_of_mem hc)
  rw [Decimal.read, List.filter_eq_self.mpr hplain]
  simp only [Binary64.words, List.mem_cons, List.not_mem_nil, or_false] at h
  dsimp only
  rcases h with h | h | h <;> simp [h]

/-- The text of what cannot be read is not respelled. -/
theorem shown_of_unread (hvalue : l.datatype = some datatype)
    (h : Datum.ofLexical l.lexical datatype = none) : l.shown = l.lexical.toList := by
  by_cases hnumeric : datatype ∈ Xsd.decimal :: Xsd.floatFamily
  · rcases List.mem_cons.mp hnumeric with rfl | hfloat
    · cases hread : Binary64.read l.lexical with
      | none => exact shown_of_not_read hread
      | some x =>
          rcases Binary64.word_or_numeric_of_read hread with hword | hchars
          · rw [Datum.ofLexical_decimal, Option.map_eq_none_iff] at h
            exact absurd h (read_of_word hword)
          · refine shown_of_not_mem fun hmem => ?_
            exact absurd (hchars _ hmem) (by decide +kernel)
    · rw [Datum.ofLexical_double hfloat, Option.map_eq_none_iff] at h
      exact shown_of_not_read h
  · refine shown_of_not_numeric fun d hd => ?_
    obtain rfl := Option.some.inj (hd.symm.trans hvalue)
    exact hnumeric

end Literal

/-! ### Texts of values -/

section Values

variable {P : Char → Prop} (hdigit : ∀ d < 10, P (Nat.digitChar d)) (hpoint : P '.')
  (hminus : P '-') (hplus : P '+') (hpower : P 'e')
include hdigit

open Number

include hpoint hminus in
theorem Decimal.forall_text (negative : Bool) (coefficient : Nat) (exponent : Int) :
    ∀ c ∈ (text (.finite negative coefficient exponent)).toList, P c := by
  obtain ⟨whole, places, htext, -, hwhole, hplaces, -⟩ := exists_text negative coefficient exponent
  rw [htext]
  exact List.forall_mem_append.mpr ⟨forall_signChars hminus negative,
    forall_pointChars hdigit hpoint hwhole hplaces⟩

include hpoint hminus hplus hpower in
theorem Binary64.forall_text (negative : Bool) {mantissa : Nat} {exponent : Int}
    (h : Lowest mantissa exponent) :
    ∀ c ∈ (text (.finite negative mantissa exponent)).toList, P c := by
  by_cases hzero : mantissa = 0
  · have hnought : P '0' := hdigit 0 (by decide)
    rw [text, String.toList_ofList, if_pos hzero]
    refine List.forall_mem_append.mpr ⟨forall_signChars hminus negative, ?_⟩
    simp [hnought, hpoint]
  · obtain ⟨whole, places, power, htext, -, hwhole, hplaces, hshown, -⟩ :=
      exists_text negative h hzero
    rw [htext]
    exact forall_numeral hdigit hpoint hpower hminus hplus negative hwhole hplaces hshown

include hminus in
theorem Number.forall_integerText (i : Int) : ∀ c ∈ (integerText i).toList, P c := by
  obtain ⟨ds, htext, -, hds, -⟩ := exists_integerText i
  rw [htext]
  exact List.forall_mem_append.mpr ⟨forall_signChars hminus _, forall_digitChars hdigit hds⟩

include hminus in
theorem Date.forall_text {d : Date} (h : d.Calendar) : ∀ c ∈ d.text.toList, P c := by
  obtain ⟨-, hmonth, hday⟩ := ofParts_eq_some h.exists_day
  have hpadded : ∀ {width n : Nat}, 0 < width → n < 10 ^ width → ∀ c ∈ padded width n, P c := by
    intro width n hwidth hn
    obtain ⟨ds, htext, -, hds, -⟩ := exists_padded _ _ hwidth hn
    rw [htext]
    exact forall_digitChars hdigit hds
  rw [text, String.toList_ofList]
  simp only [List.forall_mem_append, List.forall_mem_cons]
  exact ⟨⟨hpadded (by decide) h.year_lt, hminus, hpadded (by decide) (by omega)⟩, hminus,
    hpadded (by decide) (by omega)⟩

end Values

theorem legible_of_plain {cs : List Char} (h : ∀ c ∈ cs, c ≠ '\n' ∧ c ≠ '\t' ∧ c ≠ '\\') :
    Legible cs where
  line hmem := (h _ hmem).1 rfl
  tab hmem := (h _ hmem).2.1 rfl
  unescaped := unescaped_of_not_mem fun hmem => (h _ hmem).2.2 rfl

theorem legible_of_all {cs : List Char}
    (h : cs.all (fun c => c != '\n' && c != '\t' && c != '\\') = true) : Legible cs :=
  legible_of_plain fun c hc => by simpa [and_assoc] using List.all_eq_true.mp h c hc

namespace Datum

/-- The text of a value that is no text itself is legible. -/
theorem legible_lexical {d : Datum} (hproper : d.Proper)
    (htext : ∀ s, d = .text s → Legible s.toList) : Legible d.lexical.toList := by
  cases d with
  | text s => exact htext s rfl
  | integer i => exact legible_of_plain (Number.forall_integerText (by decide) (by decide) i)
  | boolean b => exact legible_of_all (by cases b <;> rfl)
  | double x =>
      cases x with
      | finite negative mantissa exponent =>
          exact legible_of_plain (Binary64.forall_text (by decide) (by decide) (by decide)
            (by decide) (by decide) negative hproper)
      | infinite negative => exact legible_of_all (by cases negative <;> rfl)
      | notANumber => exact legible_of_all rfl
  | decimal x =>
      cases x with
      | finite negative coefficient exponent =>
          exact legible_of_plain (Decimal.forall_text (by decide) (by decide) (by decide) negative
            coefficient exponent)
      | infinite negative => exact legible_of_all (by cases negative <;> rfl)
      | notANumber => exact legible_of_all rfl
  | date x => exact legible_of_plain (Date.forall_text (by decide) (by decide) hproper)

end Datum

namespace Literal

variable {l : Literal} {datatype : String}

/-- The text of a value is read as a literal with the same text. -/
theorem same_ofText_lexical {d : Datum} (hproper : d.Proper) (hof : d.IsOf datatype) :
    (ofText d.lexical (some datatype)).same ⟨d.lexical, some datatype, none, some d⟩ = true := by
  have htyped : ofText d.lexical (some datatype) =
      ⟨d.asShown.lexical, some datatype, none, some d.asShown⟩ := by
    simp only [ofText, typed, Datum.ofLexical_lexical hproper hof]
  rw [htyped, d.lexical_asShown]
  simp [same]

theorem reread_of_shown (hshown : l.shown = l.lexical.toList)
    (hsame : (ofText l.lexical l.datatype).same l = true) (h : Legible l.lexical.toList) :
    Legible l.shown ∧ l.reread.same l = true := by
  refine ⟨hshown ▸ h, ?_⟩
  rwa [reread, hshown, String.ofList_toList]

/-- Numbers that are not finite are understood in the spelling in which they are shown. -/
theorem reread_value {d : Datum} (hproper : d.Proper) (hof : d.IsOf datatype)
    (h : Legible d.lexical.toList) :
    let l : Literal := ⟨d.lexical, some datatype, none, some d⟩
    Legible l.shown ∧ l.reread.same l = true := by
  intro l
  have hsame : (ofText l.lexical l.datatype).same l = true := same_ofText_lexical hproper hof
  have hother : datatype ∉ Xsd.decimal :: Xsd.floatFamily →
      Legible l.shown ∧ l.reread.same l = true := fun hnot =>
    reread_of_shown (shown_of_not_numeric fun asked hasked => Option.some.inj hasked ▸ hnot) hsame h
  cases d with
  | text s =>
      refine hother ?_
      rcases hof with rfl | rfl <;> decide
  | integer i =>
      have hfamily : ∀ d ∈ Xsd.integerFamily, d ∉ Xsd.decimal :: Xsd.floatFamily := by decide
      exact hother (hfamily datatype hof)
  | boolean b =>
      obtain rfl := hof
      exact hother (by decide)
  | double x =>
      cases x with
      | finite negative mantissa exponent =>
          have hletter : 'n' ∉ l.lexical.toList := fun hmem =>
            Binary64.forall_text (P := (· ≠ 'n')) (by decide) (by decide) (by decide) (by decide)
              (by decide) negative hproper 'n' hmem rfl
          exact reread_of_shown (shown_of_not_mem hletter) hsame h
      | infinite negative =>
          have hfamily : ∀ d ∈ Xsd.floatFamily, d = Xsd.double ∨ d = Xsd.float := by decide
          rcases hfamily datatype hof with rfl | rfl <;> cases negative <;>
            exact ⟨legible_of_all (by decide), by decide⟩
      | notANumber =>
          have hfamily : ∀ d ∈ Xsd.floatFamily, d = Xsd.double ∨ d = Xsd.float := by decide
          rcases hfamily datatype hof with rfl | rfl <;>
            exact ⟨legible_of_all (by decide), by decide⟩
  | decimal x =>
      obtain rfl := hof
      cases x with
      | finite negative coefficient exponent =>
          have hletter : 'n' ∉ l.lexical.toList := fun hmem =>
            Decimal.forall_text (P := (· ≠ 'n')) (by decide) (by decide) (by decide) negative
              coefficient exponent 'n' hmem rfl
          exact reread_of_shown (shown_of_not_mem hletter) hsame h
      | infinite negative =>
          cases negative <;> exact ⟨legible_of_all (by decide), by decide⟩
      | notANumber => exact ⟨legible_of_all (by decide), by decide⟩
  | date x =>
      obtain rfl := hof
      exact hother (by decide)

/-- An honest literal with a legible text is read in a request as the same literal. -/
theorem Honest.readsBack (hl : l.Honest) (hlanguage : l.language = none)
    (hdatatype : ∀ d, l.datatype = some d → IsDatatype d) (h : Legible l.lexical.toList) :
    l.ReadsBack := by
  suffices hread : Legible l.shown ∧ l.reread.same l = true from
    readsBack_of_reread hlanguage hdatatype hread.1 hread.2
  cases hl with
  | text s language =>
      obtain rfl := hlanguage
      exact reread_of_shown (shown_of_not_numeric fun _ hnone => nomatch hnone) (same_refl _) h
  | value hproper hof => exact reread_value hproper hof h
  | @unread s datatype hnone =>
      refine reread_of_shown (shown_of_unread rfl hnone) ?_ h
      simp [ofText, typed, hnone]

/-! ### Literals of values -/

theorem language_ofText (s : String) (datatype : Option String) :
    (ofText s datatype).language = none ∧ (ofText s datatype).datatype = datatype := by
  cases datatype with
  | none => exact ⟨rfl, rfl⟩
  | some datatype =>
      rw [ofText, typed]
      split <;> exact ⟨rfl, rfl⟩

theorem language_ofDatum (d : Datum) (datatype : Option String) :
    (ofDatum d datatype).language = none ∧
      (ofDatum d datatype).datatype = (datatype <|> d.datatype) := by
  cases d with
  | text s =>
      obtain ⟨hlanguage, hdatatype⟩ := language_ofText s datatype
      refine ⟨hlanguage, hdatatype.trans ?_⟩
      cases datatype <;> rfl
  | _ => exact ⟨rfl, rfl⟩

theorem isDatatype_of_all {s : String} (hne : s ≠ "") (hall : s.toList.all Sparql.Lexer.isIriChar = true) :
    IsDatatype s :=
  ⟨hne, List.all_eq_true.mp hall⟩

/-- The datatypes of values may stand behind a literal. -/
theorem isDatatype_of_isOf {d : Datum} (h : d.IsOf datatype) : IsDatatype datatype := by
  have hfamilies : ∀ x ∈ Xsd.integerFamily ++ Xsd.floatFamily,
      x ≠ "" ∧ x.toList.all Sparql.Lexer.isIriChar = true := by decide
  cases d with
  | text s =>
      rcases h with rfl | rfl
      · exact isDatatype_of_all (by decide) (by decide)
      · exact isDatatype_of_all (by decide) (by decide)
  | integer i =>
      obtain ⟨hne, hall⟩ := hfamilies datatype (List.mem_append_left _ h)
      exact isDatatype_of_all hne hall
  | double x =>
      obtain ⟨hne, hall⟩ := hfamilies datatype (List.mem_append_right _ h)
      exact isDatatype_of_all hne hall
  | _ =>
      obtain rfl := h
      exact isDatatype_of_all (by decide) (by decide)

/-- The text of a text is itself, or that of the value that it is read as. -/
theorem legible_ofText {s : String} (h : Legible s.toList) (datatype : Option String) :
    Legible (ofText s datatype).lexical.toList := by
  cases datatype with
  | none => exact h
  | some datatype =>
      rw [ofText, typed]
      split
      · next value hvalue =>
          obtain ⟨hproper, hof⟩ := Datum.isOf_of_ofLexical hvalue
          refine Datum.legible_lexical hproper fun t ht => ?_
          subst ht
          rw [Datum.ofLexical_text hof] at hvalue
          obtain rfl := Datum.text.inj (Option.some.inj hvalue)
          exact h
      · exact h

/-- What a value is written as is read again, unless it is given a datatype of another type. -/
theorem readsBack_ofDatum {d : Datum} (hproper : d.Proper) {datatype : Option String}
    (hof : (∃ s, d = .text s) ∨ ∀ asked, datatype = some asked → d.IsOf asked)
    (hdatatype : ∀ asked, datatype = some asked → IsDatatype asked)
    (htext : ∀ s, d = .text s → Legible s.toList) : (ofDatum d datatype).ReadsBack := by
  obtain ⟨hlanguage, hasked⟩ := language_ofDatum d datatype
  refine (honest_ofDatum hproper hof).readsBack hlanguage (fun found hfound => ?_) ?_
  · rw [hasked] at hfound
    cases datatype with
    | none => exact isDatatype_of_isOf (isOf_datatype hfound)
    | some asked => exact hdatatype found hfound
  · cases d with
    | text s => exact legible_ofText (htext s rfl) datatype
    | _ => exact Datum.legible_lexical hproper htext

/-- Under the datatype of texts a value of another type is read as its text. -/
theorem readsBack_string {d : Datum} (hproper : d.Proper) (htext : ∀ s, d ≠ .text s) :
    (ofDatum d (some Xsd.string)).ReadsBack := by
  have hvalue : ofDatum d (some Xsd.string) = ⟨d.lexical, some Xsd.string, none, some d⟩ := by
    cases d with
    | text s => exact absurd rfl (htext s)
    | _ => rfl
  have hshown : (ofDatum d (some Xsd.string)).shown = d.lexical.toList := by
    rw [hvalue]
    exact shown_of_not_numeric fun asked hasked => Option.some.inj hasked ▸ by decide
  have hlegible := Datum.legible_lexical hproper fun s hs => absurd hs (htext s)
  have hdatatype : IsDatatype Xsd.string := isDatatype_of_isOf (d := .text "") (Or.inl rfl)
  refine readsBack_of_reread (language_ofDatum d _).1 (fun asked hasked => ?_) (hshown ▸ hlegible) ?_
  · rw [hvalue] at hasked
    exact Option.some.inj hasked ▸ hdatatype
  · rw [reread, hshown, String.ofList_toList, hvalue, ofText, typed,
      Datum.ofLexical_text (Or.inl rfl)]
    simp [same, Datum.lexical]

end Literal

end EntityMapping
