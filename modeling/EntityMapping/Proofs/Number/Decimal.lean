import EntityMapping.Proofs.Number.Digits
import Mathlib.Data.List.TakeWhile

/-!
Decimal numbers are read from their texts.

The plain notation has no exponent, so a number with a positive one comes back as an equal number
with zeros at its end.
-/

namespace EntityMapping.Decimal

open Number

variable {whole places : List Nat}

/-- A numeral is read as its digits, with as many places as it shows. -/
theorem read_numeral (negative : Bool) (hne : whole ≠ []) (hwhole : AreDigits whole)
    (hplaces : AreDigits places) :
    read (String.ofList (signChars negative ++ pointChars whole places)) =
      some (.finite negative (ofDigits (whole ++ places)) (-(places.length : Int))) := by
  have hall : ∀ {P : Char → Prop}, (∀ d < 10, P (Nat.digitChar d)) → P '.' → P '-' →
      ∀ c ∈ signChars negative ++ pointChars whole places, P c := by
    intro P hdigit hpoint hminus c hc
    rcases List.mem_append.mp hc with hc | hc
    · exact forall_signChars hminus negative c hc
    · exact forall_pointChars hdigit hpoint hwhole hplaces c hc
  have hblank := hall (P := fun c => Text.isBlank c = false) (by decide) rfl rfl
  have hmark := hall (P := fun c => (c != '_') = true) (by decide) rfl rfl
  have hpower : ∀ c ∈ pointChars whole places, (c != 'e' && c != 'E') = true :=
    forall_pointChars (by decide) rfl hwhole hplaces
  have hmantissa : (pointChars whole places).takeWhile (fun c => c != 'e' && c != 'E') =
      pointChars whole places := List.takeWhile_eq_self_iff.mpr hpower
  have hbefore := takeWhile_pointChars hwhole places
  have hbehind := dropWhile_pointChars hwhole places
  obtain ⟨d, hd, cs, hcs⟩ := exists_pointChars hne hwhole places
  rw [read, String.toList_ofList, Text.trim_eq hblank, List.filter_eq_self.mpr hmark, hcs,
    takeSign_signChars negative hd]
  dsimp only
  rw [ne_word hd cs (by decide), ne_word hd cs (by decide), ne_word hd cs (by decide),
    ne_word hd cs (by decide), ← hcs, hmantissa, List.drop_length]
  simp [readPoint, hbefore, hbehind, readRun_digitChars hwhole, readRun_digitChars hplaces, hne]

/-- Digits with a point before the last ones. -/
theorem pointText_digitChars (ds : List Nat) {n : Nat} (hn : 0 < n) (hds : AreDigits ds) :
    ∃ whole places, pointText (digitChars ds) n = pointChars whole places ∧ whole ≠ [] ∧
      AreDigits whole ∧ AreDigits places ∧ ofDigits (whole ++ places) = ofDigits ds ∧
        places.length = n := by
  have hlength : (digitChars ds).length = ds.length := List.length_map _
  let es := List.replicate (n + 1 - ds.length) 0 ++ ds
  have hes : AreDigits es := areDigits_append.mpr ⟨areDigits_zeros _, hds⟩
  have hlong : n < es.length := by
    rw [List.length_append, List.length_replicate]
    omega
  refine ⟨es.take (es.length - n), es.drop (es.length - n), ?_, ?_, hes.take _, hes.drop _, ?_, ?_⟩
  · have hplaces : es.drop (es.length - n) ≠ [] := by
      rw [ne_eq, List.drop_eq_nil_iff]
      omega
    have hpadded : List.replicate (n + 1 - ds.length) '0' ++ digitChars ds = digitChars es := by
      rw [← digitChars_zeros, digitChars, digitChars, digitChars, List.map_append]
    rw [pointText, hlength, hpadded, pointChars, if_neg hplaces]
    simp [digitChars, List.map_take, List.map_drop]
  · intro hnone
    have htaken := congrArg List.length hnone
    rw [List.length_take, List.length_nil] at htaken
    omega
  · rw [List.take_append_drop, ofDigits_append, ofDigits_zeros]
    simp
  · rw [List.length_drop]
    omega

/-- The number as its plain notation shows it: a positive exponent becomes zeros. -/
def plain : Decimal → Decimal
  | .finite negative coefficient exponent =>
    if exponent < 0 then .finite negative coefficient exponent
    else .finite negative (coefficient * 10 ^ exponent.natAbs) 0
  | d => d

theorem sameValue_plain {d : Decimal} (h : d ≠ .notANumber) : d.sameValue d.plain = true := by
  cases d with
  | finite negative coefficient exponent =>
      rw [plain]
      split
      · simp [sameValue, compare?]
      · have hmin : min exponent 0 = 0 := by omega
        have hnat : exponent.toNat = exponent.natAbs := by omega
        simp [sameValue, compare?, scaled, hmin, hnat]
  | infinite negative => simp [plain, sameValue, compare?]
  | notANumber => contradiction

/-- Zeros at the end of a text are factors of ten. -/
theorem digitText_zeros {n : Nat} (hn : n ≠ 0) (k : Nat) :
    digitText (n * 10 ^ k) = digitText n ++ List.replicate k '0' := by
  induction k with
  | zero => simp
  | succ k ih =>
      have hmore : n * 10 ^ (k + 1) = n * 10 ^ k * 10 := by rw [Nat.pow_succ, Nat.mul_assoc]
      have hpos : 0 < n * 10 ^ k :=
        Nat.mul_pos (Nat.pos_of_ne_zero hn) (Nat.pow_pos (Nat.succ_pos 9))
      have hlarge : ¬n * 10 ^ k * 10 < 10 := by omega
      rw [digitText] at ih
      rw [hmore, digitText, Nat.toDigits_eq_if (by decide), if_neg hlarge,
        Nat.mul_div_cancel _ (by decide), Nat.mul_mod_left, ih, List.replicate_succ',
        List.append_assoc]
      rfl

/-- The zeros are shown. -/
theorem text_plain (d : Decimal) : d.plain.text = d.text := by
  cases d with
  | finite negative coefficient exponent =>
      rw [plain]
      split
      · rfl
      · next hsmall =>
          by_cases hzero : coefficient = 0
          · simp [hzero, text, hsmall]
          · have hne : coefficient * 10 ^ exponent.natAbs ≠ 0 := by simp [hzero]
            rw [text, text, if_neg hsmall, if_neg (Int.lt_irrefl 0), beq_false_of_ne hne,
              beq_false_of_ne hzero, if_neg Bool.false_ne_true, if_neg Bool.false_ne_true,
              digitText_zeros hzero]
            simp
  | infinite negative => rfl
  | notANumber => rfl

/-- The text of a number is a numeral of it. -/
theorem exists_text (negative : Bool) (coefficient : Nat) (exponent : Int) :
    ∃ whole places, (text (.finite negative coefficient exponent)).toList =
        signChars negative ++ pointChars whole places ∧
      whole ≠ [] ∧ AreDigits whole ∧ AreDigits places ∧
      plain (.finite negative coefficient exponent) =
        .finite negative (ofDigits (whole ++ places)) (-(places.length : Int)) := by
  by_cases hsmall : exponent < 0
  · obtain ⟨ds, htext, -, hds, hvalue⟩ := exists_digits coefficient
    obtain ⟨whole, places, hpoint, hne, hwhole, hplaces, hdigits, hlength⟩ :=
      pointText_digitChars ds (n := exponent.natAbs) (by omega) hds
    refine ⟨whole, places, ?_, hne, hwhole, hplaces, ?_⟩
    · rw [text, String.toList_ofList, htext, if_pos hsmall, hpoint]
      rfl
    · have hexponent : -(places.length : Int) = exponent := by omega
      rw [plain, if_pos hsmall, hdigits, hvalue, hexponent]
  · obtain ⟨ds, htext, hne, hds, hvalue⟩ := exists_digits (coefficient * 10 ^ exponent.natAbs)
    refine ⟨ds, [], ?_, hne, hds, by simp [AreDigits], ?_⟩
    · have hpoint : digitChars ds = pointChars ds [] := by simp [pointChars]
      rw [← text_plain, plain, if_neg hsmall, text, String.toList_ofList, if_neg (Int.lt_irrefl 0),
        htext, hpoint]
      simp [signChars]
    · rw [plain, if_neg hsmall, List.append_nil, hvalue]
      simp

/-- A number is read from its text as the text shows it. -/
theorem read_text (d : Decimal) : read d.text = some d.plain := by
  cases d with
  | finite negative coefficient exponent =>
      obtain ⟨whole, places, htext, hne, hwhole, hplaces, hplain⟩ :=
        exists_text negative coefficient exponent
      rw [← String.ofList_toList (s := text _), htext, hplain]
      exact read_numeral negative hne hwhole hplaces
  | infinite negative => cases negative <;> rfl
  | notANumber => rfl

end EntityMapping.Decimal
