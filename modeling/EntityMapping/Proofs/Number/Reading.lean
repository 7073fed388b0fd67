import EntityMapping.Number.Binary64

/-!
What can be read as a floating point number.

Apart from the words for what is not finite, only digits and the few marks of numbers can.
-/

namespace EntityMapping

namespace Number

/-- Marks that may stand in a number beside its digits. -/
def marks : List Char :=
  ['_', '.', 'e', 'E', '+', '-']

/-- Characters that a number may be written with. -/
def isNumberChar (c : Char) : Bool :=
  (Text.digitValue? c).isSome || marks.contains c || Text.isBlank c

/-- A text of such characters only. -/
def Numeric (cs : List Char) : Prop :=
  ∀ c ∈ cs, isNumberChar c = true

variable {cs : List Char} {c : Char}

theorem numeric_nil : Numeric [] := by
  simp [Numeric]

theorem numeric_cons : Numeric (c :: cs) ↔ isNumberChar c = true ∧ Numeric cs :=
  List.forall_mem_cons

theorem isNumberChar_of_digitValue {d : Nat} (h : Text.digitValue? c = some d) :
    isNumberChar c = true := by
  simp [isNumberChar, h]

/-- What holds of blanks and of a trimmed text holds of the text. -/
theorem forall_trim {P : Char → Prop} (hblank : ∀ c, Text.isBlank c = true → P c)
    (h : ∀ c ∈ Text.trim cs, P c) : ∀ c ∈ cs, P c := by
  have hdrop : ∀ ds : List Char, (∀ c ∈ ds.dropWhile Text.isBlank, P c) → ∀ c ∈ ds, P c := by
    intro ds hds c hc
    rw [← List.takeWhile_append_dropWhile (p := Text.isBlank) (l := ds)] at hc
    rcases List.mem_append.mp hc with hc | hc
    · exact hblank c (List.all_eq_true.mp List.all_takeWhile c hc)
    · exact hds c hc
  refine hdrop _ fun c hc => ?_
  refine hdrop (cs.dropWhile Text.isBlank).reverse (fun c hc => ?_) c
    (List.mem_reverse.mpr hc)
  exact h c (List.mem_reverse.mpr hc)

/-- What holds of signs and behind a sign holds of the text. -/
theorem forall_takeSign {P : Char → Prop} (hminus : P '-') (hplus : P '+')
    (h : ∀ c ∈ (takeSign cs).2, P c) : ∀ c ∈ cs, P c := by
  unfold takeSign at h
  split at h
  · exact List.forall_mem_cons.mpr ⟨hminus, h⟩
  · exact List.forall_mem_cons.mpr ⟨hplus, h⟩
  · exact h

theorem numeric_of_readGrouped {ds : List Nat} (h : readGrouped cs = some ds) : Numeric cs := by
  induction cs using readGrouped.induct generalizing ds with
  | case1 => contradiction
  | case2 c =>
      obtain ⟨d, hd, -⟩ := Option.map_eq_some_iff.mp h
      exact numeric_cons.mpr ⟨isNumberChar_of_digitValue hd, numeric_nil⟩
  | case3 c rest ih =>
      simp only [readGrouped, Option.bind_eq_bind, Option.bind_eq_some_iff] at h
      obtain ⟨d, hd, ds, hds, -⟩ := h
      exact numeric_cons.mpr ⟨isNumberChar_of_digitValue hd, numeric_cons.mpr ⟨rfl, ih hds⟩⟩
  | case4 c d rest hno ih =>
      rw [readGrouped.eq_4 _ _ _ hno] at h
      simp only [Option.bind_eq_bind, Option.bind_eq_some_iff] at h
      obtain ⟨value, hvalue, ds, hds, -⟩ := h
      exact numeric_cons.mpr ⟨isNumberChar_of_digitValue hvalue, ih hds⟩

/-- A text whose parts before and behind a mark are numeric. -/
theorem numeric_around {p : Char → Bool} (hbefore : Numeric (cs.takeWhile p))
    (hmark : ∀ c, p c = false → isNumberChar c = true)
    (hbehind : Numeric ((cs.dropWhile p).drop 1)) : Numeric cs := by
  rw [← List.takeWhile_append_dropWhile (p := p) (l := cs)]
  refine List.forall_mem_append.mpr ⟨hbefore, ?_⟩
  rcases hrest : cs.dropWhile p with - | ⟨c, rest⟩
  · exact numeric_nil
  · rw [hrest] at hbehind
    refine numeric_cons.mpr ⟨hmark c ?_, hbehind⟩
    have hhead := List.head_dropWhile_not p (l := cs) (by simp [hrest])
    simpa [hrest] using hhead

end Number

namespace Binary64

open Number

variable {cs : List Char}

theorem numeric_of_readOptionalRun {ds : List Nat} (h : readOptionalRun cs = some ds) :
    Numeric cs := by
  unfold readOptionalRun at h
  split at h
  · next hempty =>
      rw [List.isEmpty_iff.mp hempty]
      exact numeric_nil
  · exact numeric_of_readGrouped h

theorem numeric_of_readPoint {negative : Bool} {exponent : Int} {x : Binary64}
    (h : readPoint negative cs exponent = some x) : Numeric cs := by
  simp only [readPoint, Option.bind_eq_bind, Option.bind_eq_some_iff] at h
  obtain ⟨whole, hwhole, places, hplaces, -⟩ := h
  refine numeric_around (numeric_of_readOptionalRun hwhole) (fun c hc => ?_)
    (numeric_of_readOptionalRun hplaces)
  have hpoint : c = '.' := by simpa using hc
  rw [hpoint]
  rfl

theorem numeric_of_readExponent {e : Int} (h : readExponent cs = some e) : Numeric cs := by
  simp only [readExponent, Option.bind_eq_bind, Option.bind_eq_some_iff] at h
  obtain ⟨digits, hdigits, -⟩ := h
  exact forall_takeSign rfl rfl (numeric_of_readGrouped hdigits)

/-- Words for what is not finite. -/
def words : List (List Char) :=
  ["inf".toList, "infinity".toList, "nan".toList]

/-- What is read as a number is one of the words or numeric. -/
theorem word_or_numeric_of_read {s : String} {x : Binary64} (h : read s = some x) :
    (takeSign (Text.trim s.toList)).2.map Char.toLower ∈ words ∨ Numeric s.toList := by
  have hnumeric : Numeric (takeSign (Text.trim s.toList)).2 → Numeric s.toList := fun hrest =>
    forall_trim (fun c hc => by simp [isNumberChar, hc]) (forall_takeSign rfl rfl hrest)
  unfold read at h
  generalize takeSign (Text.trim s.toList) = signed at h hnumeric
  obtain ⟨negative, rest⟩ := signed
  simp only at h hnumeric
  split at h
  · next hword =>
      rcases (Bool.or_eq_true _ _).mp hword with hword | hword
      · exact Or.inl (by simp [words, beq_iff_eq.mp hword])
      · exact Or.inl (by simp [words, beq_iff_eq.mp hword])
  · split at h
    · next hword => exact Or.inl (by simp [words, beq_iff_eq.mp hword])
    · have hdrop : ((rest.takeWhile fun c => c != 'e' && c != 'E') ++
          rest.dropWhile fun c => c != 'e' && c != 'E').drop
            (rest.takeWhile fun c => c != 'e' && c != 'E').length = _ :=
        List.drop_left
      rw [List.takeWhile_append_dropWhile] at hdrop
      refine Or.inr (hnumeric (numeric_around (p := fun c => c != 'e' && c != 'E') ?_
        (fun c hc => ?_) ?_))
      · split at h
        · exact numeric_of_readPoint h
        · obtain ⟨power, -, hpoint⟩ := Option.bind_eq_some_iff.mp h
          exact numeric_of_readPoint hpoint
      · have hmark : c = 'e' ∨ c = 'E' := by
          by_cases he : c = 'e'
          · exact Or.inl he
          · exact Or.inr (by simpa [he] using hc)
        rcases hmark with rfl | rfl
        · rfl
        · rfl
      · split at h
        · next hnone =>
            rw [← hdrop, hnone]
            exact numeric_nil
        · next c power hpower =>
            rw [← hdrop, hpower]
            obtain ⟨e, he, -⟩ := Option.bind_eq_some_iff.mp h
            exact numeric_of_readExponent he

/-- A letter that no word has is in no text of a number. -/
theorem not_mem_of_read {s : String} {x : Binary64} (h : read s = some x) {c : Char}
    (hchar : isNumberChar c = false) (hword : ∀ word ∈ words, c.toLower ∉ word) :
    c ∉ s.toList := by
  rcases word_or_numeric_of_read h with hlower | hnumeric
  · have hother : ∀ d, isNumberChar d = true → d ≠ c := by
      rintro d hd rfl
      exact Bool.noConfusion (hd.symm.trans hchar)
    have hall : ∀ d ∈ s.toList, d ≠ c := by
      refine forall_trim (fun d hd => hother d (by simp [isNumberChar, hd]))
        (forall_takeSign (hother _ rfl) (hother _ rfl) ?_)
      rintro d hd rfl
      exact hword _ hlower (List.mem_map_of_mem hd)
    exact fun hmem => hall c hmem rfl
  · exact fun hmem => Bool.noConfusion ((hnumeric c hmem).symm.trans hchar)

end Binary64

end EntityMapping
