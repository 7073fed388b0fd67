import EntityMapping.Number.Decimal
import EntityMapping.Number.Integer
import Mathlib.Data.Nat.Digits.Defs

/-!
Numerals: texts of plain digits, with a sign in front and a point between them.

What writes a number writes a numeral, and what reads a number reads numerals by their digits.  So
each notation has to say only which digits it shows.
-/

namespace EntityMapping

/-- Trimming leaves a text without blanks as it is. -/
theorem Text.trim_eq {cs : List Char} (h : ∀ c ∈ cs, isBlank c = false) : trim cs = cs := by
  have hdrop : ∀ ds : List Char, (∀ c ∈ ds, isBlank c = false) → ds.dropWhile isBlank = ds := by
    intro ds hds
    cases ds with
    | nil => rfl
    | cons c ds => simp [hds c List.mem_cons_self]
  rw [trim, trimLeft, trimRight, hdrop cs h, hdrop, List.reverse_reverse]
  exact fun c hc => h c (List.mem_reverse.mp hc)

namespace Number

/-! ### Digits -/

/-- Numbers below ten. -/
def AreDigits (ds : List Nat) : Prop :=
  ∀ d ∈ ds, d < 10

/-- Plain digits as text. -/
def digitChars (ds : List Nat) : List Char :=
  ds.map Nat.digitChar

variable {ds es : List Nat} {d : Nat}

theorem areDigits_cons : AreDigits (d :: ds) ↔ d < 10 ∧ AreDigits ds :=
  List.forall_mem_cons

theorem areDigits_append : AreDigits (ds ++ es) ↔ AreDigits ds ∧ AreDigits es :=
  List.forall_mem_append

theorem areDigits_zeros (n : Nat) : AreDigits (List.replicate n 0) := fun d hd => by
  rw [List.eq_of_mem_replicate hd]
  exact Nat.succ_pos 9

theorem AreDigits.take (h : AreDigits ds) (n : Nat) : AreDigits (ds.take n) :=
  fun d hd => h d (List.mem_of_mem_take hd)

theorem AreDigits.drop (h : AreDigits ds) (n : Nat) : AreDigits (ds.drop n) :=
  fun d hd => h d (List.mem_of_mem_drop hd)

/-- What holds of the ten plain digits holds of a text of them. -/
theorem forall_digitChars {P : Char → Prop} (hP : ∀ d < 10, P (Nat.digitChar d))
    (h : AreDigits ds) : ∀ c ∈ digitChars ds, P c := by
  intro c hc
  obtain ⟨d, hd, rfl⟩ := List.mem_map.mp hc
  exact hP d (h d hd)

theorem digitValue?_digitChar : ∀ d < 10, Text.digitValue? (Nat.digitChar d) = some d := by
  decide

theorem digitChars_zeros (n : Nat) :
    digitChars (List.replicate n 0) = List.replicate n '0' :=
  List.map_replicate

theorem ofDigits_append (ds es : List Nat) :
    ofDigits (ds ++ es) = ofDigits ds * 10 ^ es.length + ofDigits es := by
  suffices hfold : ∀ (es : List Nat) (n : Nat),
      es.foldl (fun value digit => 10 * value + digit) n = n * 10 ^ es.length + ofDigits es by
    rw [ofDigits, List.foldl_append, hfold es]
    rfl
  intro es
  induction es with
  | nil => simp [ofDigits]
  | cons e es ih =>
      intro n
      have hrest : ofDigits (e :: es) = (10 * 0 + e) * 10 ^ es.length + ofDigits es := ih _
      rw [List.foldl_cons, ih, hrest, List.length_cons]
      ring

@[simp] theorem ofDigits_zeros (n : Nat) : ofDigits (List.replicate n 0) = 0 := by
  induction n with
  | zero => rfl
  | succ n ih =>
      rw [List.replicate_succ', ofDigits_append, ih]
      rfl

theorem ofDigits_cons (d : Nat) (ds : List Nat) :
    ofDigits (d :: ds) = d * 10 ^ ds.length + ofDigits ds := by
  have hone : ofDigits [d] = d := by simp [ofDigits]
  rw [← List.singleton_append, ofDigits_append, hone]

/-- The text of a number is that of its digits. -/
theorem exists_digits (n : Nat) :
    ∃ ds, digitText n = digitChars ds ∧ ds ≠ [] ∧ AreDigits ds ∧ ofDigits ds = n := by
  induction n using Nat.strong_induction_on with
  | h n ih =>
      rw [digitText, Nat.toDigits_eq_if (by decide)]
      by_cases hsmall : n < 10
      · rw [if_pos hsmall]
        exact ⟨[n], rfl, List.cons_ne_nil _ _, areDigits_cons.mpr ⟨hsmall, by simp [AreDigits]⟩,
          by simp [ofDigits]⟩
      · rw [if_neg hsmall]
        obtain ⟨ds, htext, -, hds, hvalue⟩ := ih (n / 10) (Nat.div_lt_self (by omega) (by decide))
        refine ⟨ds ++ [n % 10], ?_, by simp, ?_, ?_⟩
        · rw [← digitText, htext]
          simp [digitChars]
        · rw [areDigits_append]
          exact ⟨hds, areDigits_cons.mpr ⟨Nat.mod_lt _ (by decide), by simp [AreDigits]⟩⟩
        · rw [ofDigits_append, hvalue, ofDigits_cons]
          simp only [List.length_cons, List.length_nil, ofDigits, List.foldl_nil]
          omega

/-! ### Reading digits -/

theorem readGrouped_digitChars (hne : ds ≠ []) (h : AreDigits ds) :
    readGrouped (digitChars ds) = some ds := by
  induction ds with
  | nil => contradiction
  | cons d ds ih =>
      obtain ⟨hd, hds⟩ := areDigits_cons.mp h
      cases ds with
      | nil => simp [digitChars, readGrouped, digitValue?_digitChar d hd]
      | cons e ds =>
          have hmark : ∀ e < 10, Nat.digitChar e ≠ '_' := by decide
          have hnext : Nat.digitChar e ≠ '_' := hmark e (areDigits_cons.mp hds).1
          have hrest := ih (List.cons_ne_nil _ _) hds
          rw [digitChars, List.map_cons] at hrest
          rw [digitChars, List.map_cons, List.map_cons,
            readGrouped.eq_4 _ _ _ hnext, digitValue?_digitChar d hd, hrest]
          rfl

theorem readRun_digitChars (h : AreDigits ds) : Decimal.readRun (digitChars ds) = some ds := by
  induction ds with
  | nil => rfl
  | cons d ds ih =>
      obtain ⟨hd, hds⟩ := areDigits_cons.mp h
      rw [Decimal.readRun] at ih ⊢
      rw [digitChars, List.map_cons, List.mapM_cons, digitValue?_digitChar d hd]
      rw [digitChars] at ih
      rw [ih hds]
      rfl

/-! ### Signs and points -/

/-- A minus, if there is one. -/
def signChars (negative : Bool) : List Char :=
  if negative then ['-'] else []

/-- Digits, and more digits behind a point if there are any. -/
def pointChars (whole places : List Nat) : List Char :=
  digitChars whole ++ if places = [] then [] else '.' :: digitChars places

variable {whole places : List Nat}

theorem forall_pointChars {P : Char → Prop} (hP : ∀ d < 10, P (Nat.digitChar d)) (hpoint : P '.')
    (hwhole : AreDigits whole) (hplaces : AreDigits places) : ∀ c ∈ pointChars whole places, P c := by
  intro c hc
  rcases List.mem_append.mp hc with hc | hc
  · exact forall_digitChars hP hwhole c hc
  · split at hc
    · contradiction
    · rcases List.mem_cons.mp hc with rfl | hc
      · exact hpoint
      · exact forall_digitChars hP hplaces c hc

theorem forall_signChars {P : Char → Prop} (hP : P '-') (negative : Bool) :
    ∀ c ∈ signChars negative, P c := by
  cases negative <;> simp [signChars, hP]

/-- Digits that are there begin with one. -/
theorem exists_pointChars (hne : whole ≠ []) (h : AreDigits whole) (places : List Nat) :
    ∃ d < 10, ∃ cs, pointChars whole places = Nat.digitChar d :: cs := by
  cases whole with
  | nil => contradiction
  | cons d whole => exact ⟨d, h d List.mem_cons_self, _, rfl⟩

theorem takeSign_signChars (negative : Bool) {d : Nat} (hd : d < 10) (cs : List Char) :
    takeSign (signChars negative ++ Nat.digitChar d :: cs) = (negative, Nat.digitChar d :: cs) := by
  cases negative with
  | true => rfl
  | false =>
      have hmark : ∀ d < 10, Nat.digitChar d ≠ '-' ∧ Nat.digitChar d ≠ '+' := by decide
      obtain ⟨hminus, hplus⟩ := hmark d hd
      rw [signChars, if_neg Bool.false_ne_true, List.nil_append, takeSign.eq_3]
      · exact fun rest h => hminus (List.cons.inj h).1
      · exact fun rest h => hplus (List.cons.inj h).1

/-- What begins with a digit is not a word, in whatever letters. -/
theorem ne_word {d : Nat} (hd : d < 10) (cs : List Char) {word : List Char}
    (hword : ∀ d < 10, word.head? ≠ some (Nat.digitChar d)) :
    ((Nat.digitChar d :: cs).map Char.toLower == word) = false := by
  have hlower : ∀ d < 10, (Nat.digitChar d).toLower = Nat.digitChar d := by decide
  refine beq_false_of_ne fun heq => hword d hd ?_
  rw [← heq, List.map_cons, hlower d hd]
  rfl

theorem takeWhile_pointChars (hwhole : AreDigits whole) (places : List Nat) :
    (pointChars whole places).takeWhile (· != '.') = digitChars whole := by
  have hdigits : ∀ c ∈ digitChars whole, (c != '.') = true :=
    forall_digitChars (by decide) hwhole
  rw [pointChars, List.takeWhile_append_of_pos hdigits]
  split <;> simp

theorem dropWhile_pointChars (hwhole : AreDigits whole) (places : List Nat) :
    ((pointChars whole places).dropWhile (· != '.')).drop 1 = digitChars places := by
  have hdigits : ∀ c ∈ digitChars whole, (c != '.') = true :=
    forall_digitChars (by decide) hwhole
  rw [pointChars, List.dropWhile_append_of_pos hdigits]
  split
  · next hnone => simp [hnone, digitChars]
  · simp

/-! ### Integers -/

theorem exists_integerText (i : Int) : ∃ ds, (integerText i).toList =
    signChars (decide (i < 0)) ++ digitChars ds ∧ ds ≠ [] ∧ AreDigits ds ∧
      ofDigits ds = i.natAbs := by
  obtain ⟨ds, htext, hne, hds, hvalue⟩ := exists_digits i.natAbs
  refine ⟨ds, ?_, hne, hds, hvalue⟩
  rw [integerText, String.toList_ofList, htext]
  by_cases hneg : i < 0 <;> simp [signChars, hneg]

/-- An integer is read from its text. -/
theorem readInteger_integerText (i : Int) : readInteger (integerText i) = some i := by
  obtain ⟨ds, htext, hne, hds, hvalue⟩ := exists_integerText i
  have hpoint : digitChars ds = pointChars ds [] := by simp [pointChars]
  obtain ⟨d, hd, cs, hcs⟩ := exists_pointChars hne hds []
  have hblank : ∀ c ∈ (integerText i).toList, Text.isBlank c = false := by
    intro c hc
    rw [htext] at hc
    rcases List.mem_append.mp hc with hc | hc
    · exact forall_signChars (P := fun c => Text.isBlank c = false) rfl _ c hc
    · exact forall_digitChars (P := fun c => Text.isBlank c = false) (by decide) hds c hc
  have hread := readGrouped_digitChars hne hds
  rw [readInteger, Text.trim_eq hblank, htext, hpoint, hcs, takeSign_signChars _ hd]
  rw [hpoint, hcs] at hread
  simp only [hread, Option.map_some, hvalue]
  by_cases hneg : i < 0
  · simp only [hneg, decide_true, if_true]
    congr 1
    omega
  · simp only [hneg, decide_false, Bool.false_eq_true, if_false]
    congr 1
    omega

end Number

end EntityMapping
