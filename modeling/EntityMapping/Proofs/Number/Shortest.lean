import EntityMapping.Number.Binary64.Shortest
import EntityMapping.Proofs.Number.Rounding

/-!
Floating point numbers are read from their texts.

The shortest decimal of a number was found by reading it, and where none was found the decimal is the
exact one.  The text shows this decimal with its zeros moved, which changes nothing of its value, so
it is read as the same number.
-/

namespace EntityMapping.Binary64

open Number

variable {whole places ds : List Nat} {mantissa : Nat} {exponent : Int}

/-! ### Reading numerals -/

/-- A power of ten behind a numeral: its sign and its digits. -/
abbrev Power := Option (Bool × List Nat)

namespace Power

/-- The text of a power. -/
def chars : Power → List Char
  | none => []
  | some (negative, ds) => 'e' :: (if negative then '-' else '+') :: digitChars ds

/-- The exponent that a power stands for. -/
def value : Power → Int
  | none => 0
  | some (negative, ds) => if negative then -(ofDigits ds : Int) else ofDigits ds

/-- A power that is not there, or has digits. -/
def Shown : Power → Prop
  | none => True
  | some (_, ds) => ds ≠ [] ∧ AreDigits ds

end Power

theorem readOptionalRun_digitChars (h : AreDigits ds) :
    readOptionalRun (digitChars ds) = some ds := by
  cases ds with
  | nil => rfl
  | cons d ds => exact readGrouped_digitChars (List.cons_ne_nil _ _) h

theorem readPoint_pointChars (negative : Bool) (hne : whole ≠ []) (hwhole : AreDigits whole)
    (hplaces : AreDigits places) (power : Int) :
    readPoint negative (pointChars whole places) power =
      some (ofScientific negative (ofDigits (whole ++ places)) (power - places.length)) := by
  rw [readPoint, takeWhile_pointChars hwhole, dropWhile_pointChars hwhole,
    readOptionalRun_digitChars hwhole, readOptionalRun_digitChars hplaces]
  simp [hne]

theorem readExponent_power {ds : List Nat} (negative : Bool) (hne : ds ≠ []) (h : AreDigits ds) :
    readExponent ((if negative then '-' else '+') :: digitChars ds) =
      some (Power.value (some (negative, ds))) := by
  cases negative <;> simp [readExponent, takeSign, readGrouped_digitChars hne h, Power.value]

theorem forall_powerChars {P : Char → Prop} (hP : ∀ d < 10, P (Nat.digitChar d)) (hpower : P 'e')
    (hminus : P '-') (hplus : P '+') {power : Power} (h : power.Shown) : ∀ c ∈ power.chars, P c := by
  rcases power with - | ⟨negative, ds⟩
  · simp [Power.chars]
  · intro c hc
    rcases List.mem_cons.mp hc with rfl | hc
    · exact hpower
    · rcases List.mem_cons.mp hc with rfl | hc
      · cases negative
        · exact hplus
        · exact hminus
      · exact forall_digitChars hP h.2 c hc

/-- The text of a number that is not zero: a sign, digits around a point, and perhaps a power. -/
def numeral (negative : Bool) (whole places : List Nat) (power : Power) : List Char :=
  signChars negative ++ (pointChars whole places ++ power.chars)

theorem forall_numeral {P : Char → Prop} (hP : ∀ d < 10, P (Nat.digitChar d)) (hpoint : P '.')
    (hpower : P 'e') (hminus : P '-') (hplus : P '+') (negative : Bool) (hwhole : AreDigits whole)
    (hplaces : AreDigits places) {power : Power} (h : power.Shown) :
    ∀ c ∈ numeral negative whole places power, P c := by
  intro c hc
  rcases List.mem_append.mp hc with hc | hc
  · exact forall_signChars hminus negative c hc
  · rcases List.mem_append.mp hc with hc | hc
    · exact forall_pointChars hP hpoint hwhole hplaces c hc
    · exact forall_powerChars hP hpower hminus hplus h c hc

/-- A numeral is read as the decimal of its digits. -/
theorem read_numeral (negative : Bool) (hne : whole ≠ []) (hwhole : AreDigits whole)
    (hplaces : AreDigits places) {power : Power} (hpower : power.Shown) :
    read (String.ofList (numeral negative whole places power)) =
      some (ofScientific negative (ofDigits (whole ++ places)) (power.value - places.length)) := by
  have hblank := forall_numeral (P := fun c => Text.isBlank c = false) (by decide) rfl rfl rfl rfl
    negative hwhole hplaces hpower
  have hmark : ∀ c ∈ pointChars whole places, (c != 'e' && c != 'E') = true :=
    forall_pointChars (by decide) rfl hwhole hplaces
  obtain ⟨d, hd, cs, hcs⟩ := exists_pointChars hne hwhole places
  have hbody : pointChars whole places ++ power.chars = Nat.digitChar d :: (cs ++ power.chars) := by
    rw [hcs, List.cons_append]
  have hmantissa : (pointChars whole places ++ power.chars).takeWhile
      (fun c => c != 'e' && c != 'E') = pointChars whole places := by
    rw [List.takeWhile_append_of_pos hmark]
    rcases power with - | ⟨negative, ds⟩ <;> simp [Power.chars]
  have hrest : (pointChars whole places ++ power.chars).drop (pointChars whole places).length =
      power.chars := List.drop_left
  rw [read, String.toList_ofList, Text.trim_eq hblank, numeral, hbody, takeSign_signChars negative hd]
  dsimp only
  rw [ne_word hd _ (by decide), ne_word hd _ (by decide), ne_word hd _ (by decide), ← hbody,
    hmantissa, hrest]
  rcases power with - | ⟨minus, ds⟩
  · exact readPoint_pointChars negative hne hwhole hplaces 0
  · simp only [Power.chars, readExponent_power minus hpower.1 hpower.2, Option.bind_some]
    exact readPoint_pointChars negative hne hwhole hplaces _

/-! ### Showing digits -/

theorem digitChar_eq_zero_iff (d : Nat) : (Nat.digitChar d == '0') = (d == 0) := by
  by_cases hsmall : d < 16
  · have hall : ∀ d < 16, (Nat.digitChar d == '0') = (d == 0) := by decide
    exact hall d hsmall
  · have hother : Nat.digitChar d = '*' := by
      unfold Nat.digitChar
      repeat rw [if_neg (by omega)]
    rw [hother, beq_false_of_ne (by omega : d ≠ 0)]
    rfl

/-- The digits of a number, without the zeros at its end. -/
theorem exists_significant {coefficient : Nat} (hne : coefficient ≠ 0) :
    ∃ ss zeros, significant coefficient = digitChars ss ∧ ss ≠ [] ∧ AreDigits ss ∧
      coefficient = ofDigits ss * 10 ^ zeros ∧
        (digitText coefficient).length = ss.length + zeros := by
  obtain ⟨ds, htext, -, hds, hvalue⟩ := exists_digits coefficient
  let ss := (ds.reverse.dropWhile (· == 0)).reverse
  let zs := (ds.reverse.takeWhile (· == 0)).reverse
  have hsplit : ds = ss ++ zs := by
    rw [← List.reverse_append, List.takeWhile_append_dropWhile, List.reverse_reverse]
  have hzeros : zs = List.replicate zs.length 0 := by
    rw [List.eq_replicate_iff]
    refine ⟨rfl, fun z hz => ?_⟩
    have hall := List.all_eq_true.mp List.all_takeWhile z (List.mem_reverse.mp hz)
    exact beq_iff_eq.mp hall
  have hcoefficient : coefficient = ofDigits ss * 10 ^ zs.length := by
    rw [← hvalue, hsplit, ofDigits_append, hzeros, ofDigits_zeros, List.length_replicate,
      Nat.add_zero]
  have hss : ss ≠ [] := by
    intro hnil
    rw [hnil] at hcoefficient
    exact hne (by simpa [ofDigits] using hcoefficient)
  have hdrop : ((digitChars ds).reverse.dropWhile (· == '0')).reverse = digitChars ss := by
    have hmark : (fun c => c == '0') ∘ Nat.digitChar = fun d => d == 0 :=
      funext digitChar_eq_zero_iff
    rw [digitChars, ← List.map_reverse, List.dropWhile_map, hmark, ← List.map_reverse]
    rfl
  refine ⟨ss, zs.length, ?_, hss, ?_, hcoefficient, ?_⟩
  · rw [significant, htext, hdrop]
    split
    · next hnil => exact absurd (List.map_eq_nil_iff.mp hnil) hss
    · rfl
  · exact (areDigits_append.mp (hsplit ▸ hds)).1
  · rw [htext, digitChars, List.length_map]
    exact (congrArg List.length hsplit).trans List.length_append

variable {ss : List Nat} {magnitude : Int}

/-- A text that shows the digits up to a magnitude: a numeral of the same value. -/
structure Shows (ss : List Nat) (magnitude : Int) (whole places : List Nat) (power : Power) :
    Prop where
  nonempty : whole ≠ []
  before : AreDigits whole
  behind : AreDigits places
  shown : power.Shown
  value : (ofDigits (whole ++ places) : ℚ) * 10 ^ (power.value - places.length) =
    ofDigits ss * 10 ^ (magnitude - ss.length)

theorem digitChars_append (ds es : List Nat) :
    digitChars (ds ++ es) = digitChars ds ++ digitChars es :=
  List.map_append

theorem exists_positional (hne : ss ≠ []) (h : AreDigits ss) (magnitude : Int) :
    ∃ whole places, positional (digitChars ss) magnitude = pointChars whole places ∧
      Shows ss magnitude whole places none := by
  have hlength : (digitChars ss).length = ss.length := List.length_map _
  by_cases hsmall : magnitude ≤ 0
  · refine ⟨[0], List.replicate magnitude.natAbs 0 ++ ss, ?_, by simp, by simp [AreDigits],
      areDigits_append.mpr ⟨areDigits_zeros _, h⟩, trivial, ?_⟩
    · rw [positional, if_pos hsmall, pointChars, if_neg (by simp [hne]), digitChars_append,
        digitChars_zeros]
      rfl
    · have hexponent : (0 : Int) - ((magnitude.natAbs + ss.length : Nat) : Int) =
          magnitude - ss.length := by omega
      rw [← List.append_assoc, ofDigits_append, List.length_append, List.length_replicate,
        Power.value, hexponent, ofDigits_append, ofDigits_zeros]
      simp [ofDigits]
  · by_cases hshort : ss.length ≤ magnitude.natAbs
    · let zeros := magnitude.natAbs - ss.length
      refine ⟨ss ++ List.replicate zeros 0, [0], ?_, by simp [hne],
        areDigits_append.mpr ⟨h, areDigits_zeros _⟩, by simp [AreDigits], trivial, ?_⟩
      · rw [positional, if_neg hsmall]
        dsimp only
        rw [hlength, if_pos hshort, pointChars, if_neg (List.cons_ne_nil _ _), digitChars_append,
          digitChars_zeros]
        rfl
      · have hexponent : magnitude - ss.length = (zeros : Int) := by omega
        rw [hexponent, zpow_natCast, ofDigits_append, ofDigits_append, ofDigits_zeros,
          List.length_replicate]
        simp [ofDigits, Power.value]
    · have hplaces : ss.drop magnitude.natAbs ≠ [] := by
        rw [ne_eq, List.drop_eq_nil_iff]
        omega
      refine ⟨ss.take magnitude.natAbs, ss.drop magnitude.natAbs, ?_, ?_, h.take _, h.drop _, trivial,
        ?_⟩
      · rw [positional, if_neg hsmall]
        dsimp only
        rw [hlength, if_neg hshort, pointChars, if_neg hplaces]
        simp [digitChars, List.map_take, List.map_drop]
      · rw [ne_eq, List.take_eq_nil_iff]
        simp only [hne, or_false]
        omega
      · have hexponent : (0 : Int) - ((ss.length - magnitude.natAbs : Nat) : Int) =
            magnitude - ss.length := by omega
        rw [List.take_append_drop, List.length_drop, Power.value, hexponent]

theorem exists_scientific (hne : ss ≠ []) (h : AreDigits ss) (magnitude : Int) :
    ∃ whole places power, scientific (digitChars ss) magnitude =
        pointChars whole places ++ power.chars ∧ Shows ss magnitude whole places power := by
  obtain ⟨ps, htext, hps, hdigits, hvalue⟩ := exists_digits (magnitude - 1).natAbs
  let shown := List.replicate (2 - ps.length) 0 ++ ps
  let power : Power := some (decide (magnitude - 1 < 0), shown)
  have hlength : (digitChars ss).length = ss.length := List.length_map _
  have hlengthPower : (digitChars ps).length = ps.length := List.length_map _
  have hpower : power.value = magnitude - 1 := by
    have hshown : ofDigits shown = (magnitude - 1).natAbs := by
      rw [ofDigits_append, ofDigits_zeros, hvalue, Nat.zero_mul, Nat.zero_add]
    simp only [power, Power.value, hshown, decide_eq_true_eq]
    split <;> omega
  refine ⟨ss.take 1, ss.drop 1, power, ?_, ?_, h.take 1, h.drop 1,
    ⟨by simp [shown, hps], areDigits_append.mpr ⟨areDigits_zeros _, hdigits⟩⟩, ?_⟩
  · have hfirst : (digitChars ss).take 1 = digitChars (ss.take 1) := List.map_take.symm
    have hmore : (digitChars ss).drop 1 = digitChars (ss.drop 1) := List.map_drop.symm
    have hempty : ss.drop 1 = [] ↔ ss.length ≤ 1 := List.drop_eq_nil_iff
    simp only [scientific, hlength, htext, hlengthPower, hfirst, hmore, pointChars, hempty,
      Power.chars, power, decide_eq_true_eq, shown, digitChars_append, digitChars_zeros]
  · simp [hne]
  · have hpos := List.length_pos_of_ne_nil hne
    have hexponent : magnitude - 1 - ((ss.length - 1 : Nat) : Int) = magnitude - ss.length := by
      omega
    rw [List.take_append_drop, List.length_drop, hpower, hexponent]

/-! ### The shortest decimal -/

theorem ofScientific_of_firstGrid {x : Binary64} {num den : Nat} {magnitude : Int}
    {tries digits coefficient : Nat} {power : Int}
    (h : firstGrid x num den magnitude tries digits = some (coefficient, power)) :
    ofScientific false coefficient power = x := by
  induction tries generalizing digits with
  | zero => contradiction
  | succ tries ih =>
      rw [firstGrid] at h
      split at h
      · next found hfound =>
          obtain ⟨rfl, rfl⟩ := Prod.mk.inj (Option.some.inj h)
          have hread := List.find?_some hfound
          exact beq_iff_eq.mp hread
      · exact ih h

/-- The shortest decimal of a number is read as the number. -/
theorem ofScientific_shortest (h : Lowest mantissa exponent) (hne : mantissa ≠ 0) :
    ofScientific false (shortest mantissa exponent).1 (shortest mantissa exponent).2 =
      .finite false mantissa exponent := by
  unfold shortest
  dsimp only
  split
  · next result hresult => exact ofScientific_of_firstGrid hresult
  · split
    · next hneg =>
        apply ofScientific_lowest false h hne
        have hfive : ((Nat.pow 5 exponent.natAbs : Nat) : ℚ) = (5 ^ exponent)⁻¹ :=
          (Nat.cast_pow 5 _).trans (zpow_natAbs_of_neg 5 hneg)
        have hten : (10 : ℚ) ^ exponent = 5 ^ exponent * 2 ^ exponent := by
          rw [← mul_zpow]
          norm_num
        rw [Nat.cast_mul, hfive, hten, mul_assoc,
          inv_mul_cancel_left₀ (zpow_ne_zero _ (by norm_num))]
    · next hneg =>
        apply ofScientific_lowest false h hne
        have htwo : ((Nat.pow 2 exponent.natAbs : Nat) : ℚ) = 2 ^ exponent :=
          (Nat.cast_pow 2 _).trans (zpow_natAbs_of_nonneg 2 hneg)
        rw [Nat.cast_mul, htwo, zpow_zero, mul_one]

/-! ### Signs -/

/-- The number with a sign of its own. -/
def withSign (negative : Bool) : Binary64 → Binary64
  | .finite _ mantissa exponent => .finite negative mantissa exponent
  | .infinite _ => .infinite negative
  | .notANumber => .notANumber

theorem atExponent_withSign (negative : Bool) (num den : Nat) (exponent : Int) :
    atExponent negative num den exponent = (atExponent false num den exponent).withSign negative := by
  have hfinish : ∀ result : Nat × Int,
      (if result.2 > maxExponent then .infinite negative
        else .finite negative result.1 result.2 : Binary64) =
      (if result.2 > maxExponent then .infinite false
        else .finite false result.1 result.2 : Binary64).withSign negative := by
    intro result
    split <;> rfl
  exact hfinish _

theorem ofRatio_withSign (negative : Bool) (num den : Nat) :
    ofRatio negative num den = (ofRatio false num den).withSign negative := by
  unfold ofRatio
  dsimp only
  split
  · rfl
  · exact atExponent_withSign _ _ _ _

theorem ofScientific_withSign (negative : Bool) (coefficient : Nat) (exponent : Int) :
    ofScientific negative coefficient exponent =
      (ofScientific false coefficient exponent).withSign negative := by
  unfold ofScientific
  dsimp only
  split
  · rfl
  · split
    · rfl
    · split <;> exact ofRatio_withSign _ _ _

/-! ### There and back -/

/-- The text of a number that is not zero is a numeral that is read as the number. -/
theorem exists_text (negative : Bool) (h : Lowest mantissa exponent) (hne : mantissa ≠ 0) :
    ∃ whole places power, (text (.finite negative mantissa exponent)).toList =
        numeral negative whole places power ∧
      whole ≠ [] ∧ AreDigits whole ∧ AreDigits places ∧ power.Shown ∧
      ofScientific negative (ofDigits (whole ++ places)) (power.value - places.length) =
        .finite negative mantissa exponent := by
  have hread := ofScientific_shortest h hne
  rw [text, String.toList_ofList, if_neg hne]
  dsimp only
  generalize shortest mantissa exponent = decimal at hread
  obtain ⟨coefficient, least⟩ := decimal
  dsimp only at hread ⊢
  have hcoefficient : coefficient ≠ 0 := by
    rintro rfl
    rw [ofScientific, if_pos (by simp)] at hread
    exact hne (Binary64.finite.inj hread).2.1.symm
  obtain ⟨ss, zeros, hsignificant, hss, hdigits, hvalue, hlength⟩ := exists_significant hcoefficient
  let magnitude : Int := (digitText coefficient).length + least
  have hexponent : magnitude - ss.length = zeros + least := by omega
  have hshows : ∀ {whole places power}, Shows ss magnitude whole places power →
      ofScientific negative (ofDigits (whole ++ places)) (power.value - places.length) =
        .finite negative mantissa exponent := by
    intro whole places power hshows
    have hsame : (ofDigits (whole ++ places) : ℚ) * 10 ^ (power.value - places.length) =
        coefficient * 10 ^ least := by
      rw [hshows.value, hexponent, hvalue, Nat.cast_mul, Nat.cast_pow, Nat.cast_ofNat,
        zpow_add₀ (by norm_num), zpow_natCast, mul_assoc]
    rw [ofScientific_congr negative hsame, ofScientific_withSign, hread]
    rfl
  have hbody : ∃ whole places power,
      (if positionalLow < magnitude && magnitude ≤ positionalHigh then
        positional (digitChars ss) magnitude else scientific (digitChars ss) magnitude) =
          pointChars whole places ++ power.chars ∧ Shows ss magnitude whole places power := by
    split
    · obtain ⟨whole, places, htext, hshown⟩ := exists_positional hss hdigits magnitude
      exact ⟨whole, places, none, by rw [htext, Power.chars, List.append_nil], hshown⟩
    · exact exists_scientific hss hdigits magnitude
  obtain ⟨whole, places, power, htext, hshown⟩ := hbody
  refine ⟨whole, places, power, ?_, hshown.nonempty, hshown.before, hshown.behind, hshown.shown,
    hshows hshown⟩
  rw [hsignificant, numeral, ← htext]
  rfl

/-- A number is read from its text. -/
theorem read_text {x : Binary64} (hx : x.Canonical) : read x.text = some x := by
  cases x with
  | finite negative mantissa exponent =>
      by_cases hzero : mantissa = 0
      · subst hzero
        obtain rfl : exponent = minExponent := hx.full.resolve_left (by decide)
        cases negative <;> decide
      · obtain ⟨whole, places, power, htext, hne, hwhole, hplaces, hpower, hread⟩ :=
          exists_text negative hx hzero
        rw [← String.ofList_toList (s := text _), htext, read_numeral negative hne hwhole hplaces
          hpower, hread]
  | infinite negative => cases negative <;> decide
  | notANumber => decide

/-- What is read is in lowest form. -/
theorem canonical_of_read {s : String} {x : Binary64} (h : read s = some x) : x.Canonical := by
  have hpoint : ∀ {negative cs power}, readPoint negative cs power = some x → x.Canonical := by
    intro negative cs power h
    simp only [readPoint, Option.bind_eq_bind, Option.bind_eq_some_iff] at h
    obtain ⟨whole, -, places, -, h⟩ := h
    obtain ⟨-, hx⟩ := Option.ite_none_left_eq_some.mp h
    exact Option.some.inj hx ▸ canonical_ofScientific _ _ _
  unfold read at h
  generalize takeSign (Text.trim s.toList) = signed at h
  obtain ⟨negative, rest⟩ := signed
  dsimp only at h
  split at h
  · obtain rfl := Option.some.inj h
    trivial
  · split at h
    · obtain rfl := Option.some.inj h
      trivial
    · split at h
      · exact hpoint h
      · obtain ⟨power, -, h⟩ := Option.bind_eq_some_iff.mp h
        exact hpoint h

end EntityMapping.Binary64
