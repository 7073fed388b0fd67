import EntityMapping.Date
import EntityMapping.Proofs.Number.Digits
import Mathlib.Data.List.Basic

/-!
Dates are read from their texts.

The text of a day of the calendar has four, two and two digits, so nothing of it is taken for a time
zone.
-/

namespace EntityMapping.Date

open Number

/-- A day that the calendar has, in a year of at most four digits. -/
structure Calendar (d : Date) : Prop where
  exists_day : ofParts? d.year d.month d.day = some d
  year_lt : d.year < 10000

/-! ### Digits -/

theorem readDigits_digitChars {ds : List Nat} (h : AreDigits ds) :
    readDigits (digitChars ds) = some (ofDigits ds) := by
  have hdigit : ∀ d < 10, (Nat.digitChar d).isDigit = true := by decide
  have hvalue : ∀ d < 10, (Nat.digitChar d).toNat - 48 = d := by decide
  have hall : (digitChars ds).all Char.isDigit = true :=
    List.all_eq_true.mpr (forall_digitChars hdigit h)
  have hvalues : (digitChars ds).map (fun c => c.toNat - 48) = ds := by
    rw [digitChars, List.map_map]
    exact (List.map_congr_left fun d hd => hvalue d (h d hd)).trans (List.map_id ds)
  rw [readDigits, if_pos hall, hvalues]

/-- A number of fewer digits than the width is filled up to it. -/
theorem exists_padded (width n : Nat) (hwidth : 0 < width) (hn : n < 10 ^ width) :
    ∃ ds, padded width n = digitChars ds ∧ ds.length = width ∧ AreDigits ds ∧
      ofDigits ds = n := by
  obtain ⟨ds, htext, -, hds, hvalue⟩ := exists_digits n
  have hlength : ds.length ≤ width := by
    have hle := Nat.toDigits_length 10 n width hwidth hn
    have hchars := congrArg List.length htext
    rw [digitChars, List.length_map] at hchars
    exact hchars ▸ hle
  refine ⟨List.replicate (width - ds.length) 0 ++ ds, ?_, ?_,
    areDigits_append.mpr ⟨areDigits_zeros _, hds⟩, ?_⟩
  · rw [padded, htext, ← digitChars_zeros, digitChars, digitChars, digitChars, List.length_map,
      List.map_append]
  · rw [List.length_append, List.length_replicate, Nat.sub_add_cancel hlength]
  · rw [ofDigits_append, ofDigits_zeros, hvalue, Nat.zero_mul, Nat.zero_add]

/-- Digits are read as a number below the next power of ten. -/
theorem readDigits_lt {cs : List Char} {n : Nat} (h : readDigits cs = some n) :
    n < 10 ^ cs.length := by
  have hdigits : ∀ ds : List Nat, (∀ d ∈ ds, d < 10) → ofDigits ds < 10 ^ ds.length := by
    intro ds
    induction ds with
    | nil => exact fun _ => Nat.one_pos
    | cons d ds ih =>
        intro h
        obtain ⟨hd, hds⟩ := List.forall_mem_cons.mp h
        have hrest := ih hds
        have hfirst := Nat.mul_le_mul_right (10 ^ ds.length) (Nat.le_of_lt_succ hd)
        rw [ofDigits_cons, List.length_cons, Nat.pow_succ]
        omega
  obtain ⟨hall, h⟩ := Option.ite_none_right_eq_some.mp h
  obtain rfl := Option.some.inj h
  have hlt := hdigits (cs.map fun c => c.toNat - 48) (fun d hd => by
    obtain ⟨c, hc, rfl⟩ := List.mem_map.mp hd
    have hdigit := (Char.isDigit_iff_toNat.mp (List.all_eq_true.mp hall c hc)).2
    have hnine : '9'.toNat = 57 := rfl
    omega)
  rwa [List.length_map] at hlt

/-! ### Dates -/

variable {d : Date} {s : String}

theorem ofParts_eq_some {year month day : Nat} (h : ofParts? year month day = some d) :
    d = ⟨year, month, day⟩ ∧ month ≤ 12 ∧ day ≤ 31 := by
  rw [ofParts?, Option.ite_none_right_eq_some] at h
  obtain ⟨hparts, h⟩ := h
  have hdays : daysIn year month ≤ 31 := by
    unfold daysIn
    split
    · split <;> decide
    · split <;> decide
  simp only [Bool.and_eq_true, decide_eq_true_eq] at hparts
  exact ⟨(Option.some.inj h).symm, hparts.1.1.2, Nat.le_trans hparts.2 hdays⟩

/-- What is read is a day of the calendar. -/
theorem calendar_of_read (h : read s = some d) : d.Calendar := by
  unfold read at h
  split at h
  · simp only [Option.bind_eq_bind, Option.bind_eq_some_iff] at h
    obtain ⟨year, hyear, month, -, day, -, h⟩ := h
    obtain ⟨rfl, -⟩ := ofParts_eq_some h
    exact ⟨h, by simpa using readDigits_lt hyear⟩
  · contradiction

/-- A text of ten digits and hyphens is read as it is. -/
theorem dropZone_eq {cs : List Char} (hlength : cs.length = 10)
    (hcs : ∀ c ∈ cs, c ≠ 'Z' ∧ c ≠ 'z' ∧ c ≠ 'T') : dropZone cs = cs := by
  have hlast : ¬(cs.getLast? == some 'Z' || cs.getLast? == some 'z') = true := by
    intro hlast
    rcases (Bool.or_eq_true _ _).mp hlast with hlast | hlast
    · exact (hcs _ (List.mem_of_getLast? (beq_iff_eq.mp hlast))).1 rfl
    · exact (hcs _ (List.mem_of_getLast? (beq_iff_eq.mp hlast))).2.1 rfl
  have htime : ¬cs.contains 'T' = true := fun hmem =>
    (hcs _ (List.contains_iff_mem.mp hmem)).2.2 rfl
  simp only [dropZone, if_neg hlast, if_neg htime, hlength]
  rfl

theorem exists_of_length_four {α : Type} :
    ∀ {l : List α}, l.length = 4 → ∃ a b c d, l = [a, b, c, d]
  | [a, b, c, d], _ => ⟨a, b, c, d, rfl⟩

/-- A day is read from its text. -/
theorem read_text (h : d.Calendar) : read d.text = some d := by
  obtain ⟨-, hmonth, hday⟩ := ofParts_eq_some h.exists_day
  obtain ⟨ys, hys, hyLength, hyDigits, hyValue⟩ :=
    exists_padded 4 d.year (by decide) h.year_lt
  obtain ⟨ms, hms, hmLength, hmDigits, hmValue⟩ :=
    exists_padded 2 d.month (by decide) (by omega)
  obtain ⟨ds, hds, hdLength, hdDigits, hdValue⟩ :=
    exists_padded 2 d.day (by decide) (by omega)
  have hzone : dropZone d.text.toList = d.text.toList := by
    have hplain : ∀ {es}, AreDigits es → ∀ c ∈ digitChars es, c ≠ 'Z' ∧ c ≠ 'z' ∧ c ≠ 'T' :=
      forall_digitChars (by decide)
    rw [text, String.toList_ofList, hys, hms, hds]
    refine dropZone_eq ?_ ?_
    · simp [digitChars, hyLength, hmLength, hdLength]
    · simp only [List.forall_mem_append, List.forall_mem_cons]
      exact ⟨⟨hplain hyDigits, by decide, hplain hmDigits⟩, by decide, hplain hdDigits⟩
  have hyRead := readDigits_digitChars hyDigits
  have hmRead := readDigits_digitChars hmDigits
  have hdRead := readDigits_digitChars hdDigits
  obtain ⟨y₁, y₂, y₃, y₄, rfl⟩ := exists_of_length_four hyLength
  obtain ⟨m₁, m₂, rfl⟩ := List.length_eq_two.mp hmLength
  obtain ⟨d₁, d₂, rfl⟩ := List.length_eq_two.mp hdLength
  rw [read, hzone, text, String.toList_ofList, hys, hms, hds]
  simp only [digitChars, List.map_cons, List.map_nil, List.cons_append, List.nil_append] at *
  simp [hyRead, hmRead, hdRead, hyValue, hmValue, hdValue, h.exists_day]

end EntityMapping.Date
