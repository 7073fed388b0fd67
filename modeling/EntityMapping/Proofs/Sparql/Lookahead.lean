import EntityMapping.Proofs.Sparql.Tokens

/-!
Tokens in front of a slot, before and after it is filled.

A scanner may look past the end of its token: for the exponent of a number, the colon of a name, the
points inside a local name.  A slot begins with a question mark or a dollar sign, and what fills it
with an angle bracket or a double quote.  None of the four continues any token, and no gap does, so
most scanners take from a text in front of such a mark what they take from the text alone.  Local
names are different: behind a backslash a slot's mark is an escaped character.  There the scanner
either runs into the slot or does not look at it.
-/

namespace EntityMapping.Sparql.Lexer

/-- The marks that slots begin with, those that written terms begin with, and gaps. -/
def marks : List Char :=
  ['?', '$', '<', '"', ' ', '\n']

theorem forall_marks {p : Char → Prop}
    (h : p '?' ∧ p '$' ∧ p '<' ∧ p '"' ∧ p ' ' ∧ p '\n') : ∀ c ∈ marks, p c := by
  simpa [marks] using h

/-- A text that begins with such a mark. -/
def Marked (tail : List Char) : Prop :=
  ∃ c ∈ marks, ∃ rest, tail = c :: rest

theorem Marked.stops {tail : List Char} (h : Marked tail) {p : Char → Bool}
    (hp : p '?' = false ∧ p '$' = false ∧ p '<' = false ∧ p '"' = false ∧ p ' ' = false ∧
      p '\n' = false) : Stops p tail := by
  obtain ⟨c, hc, rest, rfl⟩ := h
  exact forall_marks (p := fun c => p c = false) hp c hc

/-- A text that begins as a slot does. -/
def OpensSlot (a : List Char) : Prop :=
  ∃ c rest, a = c :: rest ∧ (c = '?' ∨ c = '$')

instance (a : List Char) : Decidable (OpensSlot a) :=
  decidable_of_iff (a.head? = some '?' ∨ a.head? = some '$') <| by
    constructor
    · rintro (h | h)
      · obtain ⟨rest, rfl⟩ := List.head?_eq_some_iff.mp h
        exact ⟨'?', rest, rfl, .inl rfl⟩
      · obtain ⟨rest, rfl⟩ := List.head?_eq_some_iff.mp h
        exact ⟨'$', rest, rfl, .inr rfl⟩
    · rintro ⟨c, rest, rfl, rfl | rfl⟩
      · exact .inl rfl
      · exact .inr rfl

theorem OpensSlot.marked {a : List Char} (ha : OpensSlot a) : Marked a := by
  obtain ⟨c, rest, rfl, rfl | rfl⟩ := ha
  · exact ⟨'?', by decide, rest, rfl⟩
  · exact ⟨'$', by decide, rest, rfl⟩

/-- A text that begins as a written term does. -/
def OpensTerm (b : List Char) : Prop :=
  ∃ c rest, b = c :: rest ∧ (c = '<' ∨ c = '"')

theorem OpensTerm.marked {b : List Char} (hb : OpensTerm b) : Marked b := by
  obtain ⟨c, rest, rfl, rfl | rfl⟩ := hb
  · exact ⟨'<', by decide, rest, rfl⟩
  · exact ⟨'"', by decide, rest, rfl⟩

theorem OpensTerm.append {b : List Char} (h : OpensTerm b) (rest : List Char) :
    OpensTerm (b ++ rest) := by
  obtain ⟨c, more, rfl, hc⟩ := h
  exact ⟨c, more ++ rest, rfl, hc⟩

variable {tail : List Char}

/-! ### Names -/

theorem takePointed_append {p : Char → Bool} (h : Stops (fun c => c == '.' || p c) tail)
    (cs : List Char) :
    takePointed p (cs ++ tail) = ((takePointed p cs).1, (takePointed p cs).2 ++ tail) := by
  simp only [takePointed, takeRun_append h, List.append_assoc]

theorem takeVar_append (h : Marked tail) (cs : List Char) :
    takeVar (cs ++ tail) = (takeVar cs).map (behind tail) := by
  have hrun := takeRun_append (h.stops (p := isVarPart) (by decide))
  rcases cs with - | ⟨c, cs⟩
  · obtain ⟨c, hc, rest, rfl⟩ := h
    have hstart : ∀ d ∈ marks, (isNameStart d || d.isDigit) = false := forall_marks (by decide)
    simp [takeVar, hstart c hc]
  · rw [List.cons_append, takeVar, ← List.cons_append, hrun, takeVar]
    split
    · rfl
    · rfl

theorem takeLabel_append (h : Marked tail) (cs : List Char) :
    takeLabel (cs ++ tail) = (takeLabel cs).map (behind tail) := by
  have hname := takePointed_append (p := isNamePart) (h.stops (by decide))
  rcases cs with - | ⟨c, cs⟩
  · obtain ⟨c, hc, rest, rfl⟩ := h
    have hstart : ∀ d ∈ marks, (isNameStart d || d.isDigit) = false := forall_marks (by decide)
    simp [takeLabel, hstart c hc]
  · rw [List.cons_append, takeLabel, hname, takeLabel]
    split
    · rfl
    · rfl

/-! ### Numbers -/

theorem takeExponentSign_append (h : Marked tail) (cs : List Char) :
    takeExponentSign (cs ++ tail) = ((takeExponentSign cs).1, (takeExponentSign cs).2 ++ tail) := by
  rcases cs with - | ⟨c, cs⟩
  · obtain ⟨c, hc, rest, rfl⟩ := h
    have hsign : ∀ d ∈ marks, d ≠ '+' ∧ d ≠ '-' := forall_marks (by decide)
    simp [takeExponentSign, hsign c hc]
  · by_cases hplus : c = '+'
    · subst hplus
      rfl
    · by_cases hminus : c = '-'
      · subst hminus
        rfl
      · simp [takeExponentSign, hplus, hminus]

theorem takeExponent_append (h : Marked tail) (cs : List Char) :
    takeExponent (cs ++ tail) = ((takeExponent cs).1, (takeExponent cs).2 ++ tail) := by
  rcases cs with - | ⟨e, cs⟩
  · obtain ⟨c, hc, rest, rfl⟩ := h
    have hno : ∀ d ∈ marks, (d == 'e' || d == 'E') = false := forall_marks (by decide)
    simp [takeExponent, hno c hc]
  · simp only [List.cons_append, takeExponent, takeExponentSign_append h,
      takeRun_append (h.stops (p := Char.isDigit) (by decide))]
    split
    · rcases takeRun Char.isDigit (takeExponentSign cs).2 with ⟨- | ⟨d, run⟩, rest⟩
      · rfl
      · rfl
    · rfl

theorem takePlaces_append (h : Marked tail) (cs : List Char) :
    takePlaces (cs ++ tail) = ((takePlaces cs).1, (takePlaces cs).2 ++ tail) := by
  rcases cs with - | ⟨c, cs⟩
  · obtain ⟨c, hc, rest, rfl⟩ := h
    have hpoint : ∀ d ∈ marks, d ≠ '.' := forall_marks (by decide)
    simp [takePlaces, hpoint c hc]
  · by_cases hc : c = '.'
    · subst hc
      exact takeRun_append (h.stops (by decide)) cs
    · simp [takePlaces, hc]

theorem takeNumber_append (h : Marked tail) (cs : List Char) :
    takeNumber (cs ++ tail) =
      (takeNumber cs).map fun found => (found.1, found.2.1, found.2.2 ++ tail) := by
  have hpointed : ∀ rest : List Char,
      ((rest ++ tail).head? == some '.') = (rest.head? == some '.') := by
    intro rest
    obtain ⟨c, hc, more, rfl⟩ := h
    have hpoint : ∀ d ∈ marks, d ≠ '.' := forall_marks (by decide)
    cases rest <;> simp [hpoint c hc]
  unfold takeNumber
  rw [takeRun_append (h.stops (by decide))]
  rcases takeRun Char.isDigit cs with ⟨whole, rest⟩
  simp only [takePlaces_append h, takeExponent_append h, hpointed]
  rcases takeExponent (takePlaces rest).2 with ⟨- | ⟨e, power⟩, final⟩
  · simp only [apply_ite (Option.map _), Option.map_some, Option.map_none]
  · simp only [apply_ite (Option.map _), Option.map_some, Option.map_none]

theorem startsNumber_append (h : Marked tail) (cs : List Char) :
    startsNumber (cs ++ tail) = startsNumber cs := by
  obtain ⟨c, hc, rest, rfl⟩ := h
  have hno : ∀ d ∈ marks, d.isDigit = false ∧ (d == '.') = false := forall_marks (by decide)
  rcases cs with - | ⟨d, - | ⟨e, cs⟩⟩
  · cases rest <;> simp [startsNumber, hno c hc]
  · simp [startsNumber, hno c hc]
  · rfl

theorem signed_append (h : Marked tail) (sign cs : List Char) :
    takeToken.signed sign (cs ++ tail) = (takeToken.signed sign cs).map (behind tail) := by
  rw [takeToken.signed, startsNumber_append h, takeNumber_append h, takeToken.signed]
  split
  · simp only [Option.map_map]
    rfl
  · rfl

/-! ### Signs -/

theorem takeSign_append (h : Marked tail) (c : Char) (cs : List Char) :
    takeSign (c :: cs ++ tail) = (takeSign (c :: cs)).map (behind tail) := by
  rcases cs with - | ⟨d, cs⟩
  · obtain ⟨d, hd, rest, rfl⟩ := h
    have hsecond : ∀ e ∈ marks, ∀ s ∈ twoCharSigns, s.toList.drop 1 ≠ [e] :=
      forall_marks (by decide)
    have hlength : ∀ s ∈ twoCharSigns, s.toList.length ≠ 1 := by decide
    have htwo : twoCharSigns.contains (String.ofList [c, d]) = false := by
      refine Bool.eq_false_iff.mpr fun hmem => ?_
      exact hsecond d hd _ (List.contains_iff_mem.mp hmem) (by simp)
    have hone : twoCharSigns.contains (String.ofList [c]) = false := by
      refine Bool.eq_false_iff.mpr fun hmem => ?_
      exact hlength _ (List.contains_iff_mem.mp hmem) (by simp)
    simp only [takeSign, List.cons_append, List.nil_append, List.take_succ_cons, List.take_zero,
      List.take_nil, htwo, hone, Bool.false_eq_true, if_false, apply_ite (Option.map _)]
    rfl
  · simp [takeSign, behind, apply_ite (Option.map _)]

/-! ### Local names -/

/-- Whether a character stands for itself in a local name. -/
def isLocalPlain (first : Bool) (c : Char) : Bool :=
  c == ':' || (if first then isNameStart c || c.isDigit else isNamePart c)

theorem localChar_plain {first : Bool} {c : Char} {rest : List Char}
    (hpercent : c = '%' → rest.length < 2) (hescape : c = '\\' → rest = []) :
    localChar first (c :: rest) = if isLocalPlain first c then some ([c], rest) else none := by
  rw [localChar.eq_3]
  · rfl
  · rintro a b more rfl rfl
    exact absurd (hpercent rfl) (by simp)
  · rintro d more rfl rfl
    exact absurd (hescape rfl) (by simp)

theorem localChar_append (h : Marked tail) {first : Bool} {cs : List Char} (hcs : cs ≠ ['\\']) :
    localChar first (cs ++ tail) =
      (localChar first cs).map fun found => (found.1, found.2 ++ tail) := by
  obtain ⟨m, hm, rest, rfl⟩ := h
  have hhex : ∀ d ∈ marks, isHex d = false := forall_marks (by decide)
  have hother : ∀ d ∈ marks, d ≠ '%' ∧ d ≠ '\\' := forall_marks (by decide)
  have hname : ∀ d ∈ marks, ∀ first, isLocalPlain first d = false := forall_marks (by decide)
  have hpercent : isLocalPlain first '%' = false := by cases first <;> rfl
  rcases cs with - | ⟨c, cs⟩
  · rw [List.nil_append, localChar_plain (fun hc => absurd hc (hother m hm).1)
      (fun hc => absurd hc (hother m hm).2), hname m hm]
    rfl
  · by_cases hescape : c = '\\'
    · subst hescape
      rcases cs with - | ⟨d, cs⟩
      · exact absurd rfl hcs
      · simp [localChar, apply_ite (Option.map _)]
    · by_cases hc : c = '%'
      · subst hc
        rcases cs with - | ⟨d, - | ⟨e, cs⟩⟩
        · have hshort : localChar first ['%'] = none := by
            rw [localChar_plain (by simp) (by simp), hpercent]
            rfl
          rw [hshort]
          rcases rest with - | ⟨d, rest⟩
          · rw [List.cons_append, localChar_plain (by simp) (by simp), hpercent]
            rfl
          · simp [localChar, hhex m hm]
        · have hshort : localChar first ['%', d] = none := by
            rw [localChar_plain (by simp) (by simp), hpercent]
            rfl
          rw [hshort]
          simp [localChar, hhex m hm]
        · simp [localChar, apply_ite (Option.map _)]
      · rw [List.cons_append, localChar_plain (fun h => absurd h hc) (fun h => absurd h hescape),
          localChar_plain (fun h => absurd h hc) (fun h => absurd h hescape),
          apply_ite (Option.map _)]
        rfl

theorem localChar_length {first : Bool} {cs : List Char} {found : List Char × List Char}
    (h : localChar first cs = some found) : found.2.length < cs.length := by
  unfold localChar at h
  split at h
  · split at h
    · obtain rfl := Option.some.inj h
      simp only [List.length_cons]
      omega
    · contradiction
  · split at h
    · obtain rfl := Option.some.inj h
      simp only [List.length_cons]
      omega
    · contradiction
  · next c rest _ _ =>
      change (if isLocalPlain first c then some ([c], rest) else none) = some found at h
      split at h
      · obtain rfl := Option.some.inj h
        exact Nat.lt_succ_self _
      · contradiction
  · contradiction

/-- The next characters of a local name, points in front of the last one included. -/
def localStep (cs : List Char) : Option (List Char × List Char) :=
  (localChar false cs).or
    (if (takeRun (· == '.') cs).1.isEmpty then none
    else (localChar false (takeRun (· == '.') cs).2).map fun found =>
      ((takeRun (· == '.') cs).1 ++ found.1, found.2))

theorem takeLocalRest_succ (fuel : Nat) (cs : List Char) :
    takeLocalRest (fuel + 1) cs =
      ((localStep cs).map fun found =>
        (found.1 ++ (takeLocalRest fuel found.2).1, (takeLocalRest fuel found.2).2)).getD
          ([], cs) := by
  rw [takeLocalRest, localStep]
  cases localChar false cs with
  | some found => rfl
  | none =>
      rcases takeRun (· == '.') cs with ⟨- | ⟨c, points⟩, rest⟩
      · rfl
      · cases hlast : localChar false rest with
        | some found => simp [hlast]
        | none => simp [hlast]

/-- A slot is an escaped character behind a backslash. -/
theorem localChar_slot (first : Bool) {a : List Char} (ha : OpensSlot a) :
    ∃ found, localChar first ('\\' :: a) = some found ∧ found.2.length < a.length := by
  obtain ⟨c, rest, rfl, rfl | rfl⟩ := ha
  · exact ⟨_, rfl, Nat.lt_succ_self _⟩
  · exact ⟨_, rfl, Nat.lt_succ_self _⟩

/-- Either the scanner runs into the slot, or it does not look at what stands there. -/
theorem localStep_slot {a : List Char} (ha : OpensSlot a) (p : List Char) :
    (∃ found, localStep (p ++ a) = some found ∧ found.2.length < a.length) ∨
      ∀ tail, Marked tail →
        localStep (p ++ tail) = (localStep p).map fun found => (found.1, found.2 ++ tail) := by
  have hrun : ∀ {tail}, Marked tail → _ := fun {tail} htail =>
    takeRun_append (htail.stops (p := (· == '.')) (by decide)) p
  obtain ⟨found, hfound, hlength⟩ := localChar_slot false ha
  by_cases hp : p = ['\\']
  · refine Or.inl ⟨found, ?_, hlength⟩
    rw [hp, List.singleton_append, localStep, hfound]
    rfl
  · cases hfirst : localChar false p with
    | some found =>
        refine Or.inr fun tail htail => ?_
        rw [localStep, localStep, localChar_append htail hp, hfirst]
        rfl
    | none =>
        rcases hpoints : takeRun (· == '.') p with ⟨points, rest⟩
        by_cases hend : points ≠ [] ∧ rest = ['\\']
        · refine Or.inl ⟨(points ++ found.1, found.2), ?_, hlength⟩
          rw [localStep, localChar_append ha.marked hp, hfirst, hrun ha.marked, hpoints, hend.2]
          simp [hend.1, hfound]
        · refine Or.inr fun tail htail => ?_
          rw [localStep, localStep, localChar_append htail hp, hfirst, hrun htail, hpoints]
          by_cases hempty : points = []
          · simp [hempty]
          · have hrest : rest ≠ ['\\'] := fun hrest => hend ⟨hempty, hrest⟩
            simp only [localChar_append htail hrest, List.isEmpty_iff, if_neg hempty]
            cases localChar false rest <;> rfl

theorem localStep_length {cs : List Char} {found : List Char × List Char}
    (h : localStep cs = some found) : found.2.length < cs.length := by
  rw [localStep, Option.or_eq_some_iff] at h
  rcases h with h | ⟨-, h⟩
  · exact localChar_length h
  · split at h
    · contradiction
    · obtain ⟨last, hlast, rfl⟩ := Option.map_eq_some_iff.mp h
      have hlt := localChar_length hlast
      exact Nat.lt_of_lt_of_le hlt (takeRun_length_le _ _)

theorem takeLocalRest_length (fuel : Nat) (cs : List Char) :
    (takeLocalRest fuel cs).2.length ≤ cs.length := by
  induction fuel generalizing cs with
  | zero => exact Nat.le_refl _
  | succ fuel ih =>
      rw [takeLocalRest_succ]
      cases hstep : localStep cs with
      | none => exact Nat.le_refl _
      | some found => exact Nat.le_trans (ih found.2) (Nat.le_of_lt (localStep_length hstep))

theorem takeLocalRest_marked (h : Marked tail) (fuel : Nat) :
    takeLocalRest fuel tail = ([], tail) := by
  cases fuel with
  | zero => rfl
  | succ fuel =>
      have hchar : localChar false ([] ++ tail) = none := localChar_append h (by simp)
      have hrun : takeRun (· == '.') tail = ([], tail) :=
        takeRun_append (h.stops (by decide)) []
      rw [List.nil_append] at hchar
      rw [takeLocalRest_succ, localStep, hchar, hrun]
      rfl

/-- Either a local name runs into the slot, or it ends before and is the same in front of any
mark. -/
theorem takeLocalRest_slot {a : List Char} (ha : OpensSlot a) (n : Nat) {p : List Char}
    (hn : p.length ≤ n) :
    (∀ k, p.length ≤ k → (takeLocalRest k (p ++ a)).2.length < a.length) ∨
      ∀ tail, Marked tail → ∀ k, p.length ≤ k →
        takeLocalRest k (p ++ tail) =
          ((takeLocalRest n p).1, (takeLocalRest n p).2 ++ tail) := by
  -- The first step that looks at the slot decides.  With a slot behind it the text is longer and
  -- has more fuel, so that fuel is no part of the induction.
  induction n generalizing p with
  | zero =>
      obtain rfl := List.eq_nil_of_length_eq_zero (Nat.le_zero.1 hn)
      exact Or.inr fun tail htail k _ => takeLocalRest_marked htail k
  | succ n ih =>
      have hsucc : ∀ {k}, p.length ≤ k → p ≠ [] → ∃ j, k = j + 1 := fun hk hp =>
        Nat.exists_eq_succ_of_ne_zero
          (Nat.ne_of_gt (Nat.lt_of_lt_of_le (List.length_pos_of_ne_nil hp) hk))
      by_cases hp : p = []
      · subst hp
        refine Or.inr fun tail htail k _ => ?_
        rw [List.nil_append, takeLocalRest_marked htail]
        rfl
      · rcases localStep_slot ha p with ⟨found, hfound, hlength⟩ | hstep
        · refine Or.inl fun k hk => ?_
          obtain ⟨k, rfl⟩ := hsucc hk hp
          rw [takeLocalRest_succ, hfound]
          exact Nat.lt_of_le_of_lt (takeLocalRest_length k found.2) hlength
        · cases hfirst : localStep p with
          | none =>
              refine Or.inr fun tail htail k hk => ?_
              obtain ⟨k, rfl⟩ := hsucc hk hp
              rw [takeLocalRest_succ, takeLocalRest_succ, hstep tail htail, hfirst]
              rfl
          | some found =>
              have hlt := localStep_length hfirst
              have hle : ∀ {k}, p.length ≤ k + 1 → found.2.length ≤ k := fun hk =>
                Nat.le_of_lt_succ (Nat.lt_of_lt_of_le hlt hk)
              rcases ih (hle hn) with hinto | hbefore
              · refine Or.inl fun k hk => ?_
                obtain ⟨k, rfl⟩ := hsucc hk hp
                rw [takeLocalRest_succ, hstep a ha.marked, hfirst]
                exact hinto k (hle hk)
              · refine Or.inr fun tail htail k hk => ?_
                obtain ⟨k, rfl⟩ := hsucc hk hp
                rw [takeLocalRest_succ, takeLocalRest_succ, hstep tail htail, hfirst]
                simp [hbefore tail htail k (hle hk)]

theorem takeLocal_slot {a : List Char} (ha : OpensSlot a) (p : List Char) :
    (takeLocal (p ++ a)).2.length < a.length ∨
      ∀ tail, Marked tail →
        takeLocal (p ++ tail) = ((takeLocal p).1, (takeLocal p).2 ++ tail) := by
  by_cases hp : p = ['\\']
  · obtain ⟨found, hfound, hlength⟩ := localChar_slot true ha
    refine Or.inl ?_
    rw [hp, List.singleton_append, takeLocal, hfound]
    exact Nat.lt_of_le_of_lt (takeLocalRest_length _ _) hlength
  · cases hfirst : localChar true p with
    | none =>
        refine Or.inr fun tail htail => ?_
        rw [takeLocal, takeLocal, localChar_append htail hp, hfirst]
        rfl
    | some found =>
        rcases takeLocalRest_slot ha found.2.length (Nat.le_refl _) with hinto | hbefore
        · refine Or.inl ?_
          rw [takeLocal, localChar_append ha.marked hp, hfirst]
          exact hinto _ (by simp)
        · refine Or.inr fun tail htail => ?_
          rw [takeLocal, takeLocal, localChar_append htail hp, hfirst]
          simp [hbefore tail htail]

/-- A word without a colon. -/
def takeWord (cs : List Char) : Option (Token × List Char) :=
  if (takeRun (fun c => c.isAlphanum || c == '_') cs).1.isEmpty then none
  else some (.word (String.ofList (takeRun (fun c => c.isAlphanum || c == '_') cs).1),
    (takeRun (fun c => c.isAlphanum || c == '_') cs).2)

theorem takeWord_append (h : Marked tail) (cs : List Char) :
    takeWord (cs ++ tail) = (takeWord cs).map (behind tail) := by
  rw [takeWord, takeRun_append (h.stops (by decide)), takeWord, apply_ite (Option.map _)]
  rfl

theorem takeName_colon {cs label more : List Char}
    (h : takePointed isNamePart cs = (label, ':' :: more)) :
    takeName cs = some (.name (String.ofList label) (String.ofList (takeLocal more).1),
      (takeLocal more).2) := by
  rw [takeName, h]
  rfl

theorem takeName_word {cs label rest : List Char}
    (h : takePointed isNamePart cs = (label, rest)) (hrest : rest.head? ≠ some ':') :
    takeName cs = takeWord cs := by
  rw [takeName, h, takeWord]
  simp only
  split
  · exact absurd rfl hrest
  · rcases takeRun (fun c => c.isAlphanum || c == '_') cs with ⟨- | ⟨c, word⟩, more⟩
    · rfl
    · rfl

theorem takeName_slot {a : List Char} (ha : OpensSlot a) (p : List Char) :
    (∃ found, takeName (p ++ a) = some found ∧ found.2.length < a.length) ∨
      ∀ tail, Marked tail → takeName (p ++ tail) = (takeName p).map (behind tail) := by
  rcases hname : takePointed isNamePart p with ⟨label, rest⟩
  have hpointed : ∀ {tail}, Marked tail →
      takePointed isNamePart (p ++ tail) = (label, rest ++ tail) := by
    intro tail htail
    rw [takePointed_append (htail.stops (by decide)), hname]
  by_cases hrest : rest.head? = some ':'
  · obtain ⟨more, rfl⟩ := List.head?_eq_some_iff.mp hrest
    rcases takeLocal_slot ha more with hinto | hbefore
    · exact Or.inl ⟨_, takeName_colon (hpointed ha.marked), hinto⟩
    · refine Or.inr fun tail htail => ?_
      have hcolon : takePointed isNamePart (p ++ tail) = (label, ':' :: (more ++ tail)) :=
        hpointed htail
      rw [takeName_colon hcolon, takeName_colon hname, hbefore tail htail]
      rfl
  · refine Or.inr fun tail htail => ?_
    have hhead : (rest ++ tail).head? ≠ some ':' := by
      cases rest with
      | nil =>
          obtain ⟨c, hc, more, rfl⟩ := htail
          rintro hcolon
          obtain rfl := Option.some.inj hcolon
          exact absurd hc (by decide)
      | cons c rest => exact hrest
    rw [takeName_word (hpointed htail) hhead, takeName_word hname hrest, takeWord_append htail]

/-! ### Tokens -/

variable {a b p r : List Char} {t : Token}

theorem map_behind {found : Option (Token × List Char)}
    (h : found.map (behind a) = some (t, r ++ a)) (b : List Char) :
    found.map (behind b) = some (t, r ++ b) := by
  obtain ⟨⟨token, rest⟩, rfl, hfound⟩ := Option.map_eq_some_iff.mp h
  obtain ⟨rfl, hrest⟩ := Prod.mk.inj hfound
  obtain rfl := List.append_cancel_right hrest
  rfl

theorem takeText_filled {q : Char} (hq : q ≠ '\\') (h : takeText q (p ++ a) = some (t, r ++ a))
    (hhead : (r ++ b).head? = some q → (r ++ a).head? = some q) :
    takeText q (p ++ b) = some (t, r ++ b) := by
  obtain ⟨word, hword, -, htail⟩ := takeText_eq_some hq h
  rw [← List.append_assoc] at hword
  obtain rfl := List.append_cancel_right hword
  rw [List.append_assoc]
  exact htail _ hhead

theorem takeIri_filled (h : takeIri (p ++ a) = some (t, r ++ a)) (b : List Char) :
    takeIri (p ++ b) = some (t, r ++ b) := by
  obtain ⟨s, hs, rfl, hall⟩ := takeIri_eq_some h
  rw [← List.cons_append, ← List.append_assoc] at hs
  obtain rfl := List.append_cancel_right hs
  rw [List.append_assoc, List.cons_append, takeIri_written hall]

/-- A bracket that opens no reference in front of a slot opens none in front of a term. -/
theorem takeIri_eq_none (h : takeIri (p ++ a) = none) (hb : OpensTerm b) :
    takeIri (p ++ b) = none := by
  rw [Option.eq_none_iff_forall_ne_some]
  rintro ⟨token, rest⟩ hfound
  obtain ⟨s, hs, -, hall⟩ := takeIri_eq_some hfound
  obtain ⟨c, more, rfl, hc⟩ := hb
  have hstop : isIriChar c = false ∧ c ≠ '>' := by rcases hc with rfl | rfl <;> decide
  rcases List.append_eq_append_iff.mp hs with ⟨m, rfl, hm⟩ | ⟨m, rfl, hm⟩
  · rcases m with - | ⟨d, m⟩
    · exact hstop.2 (List.cons.inj hm).1
    · obtain rfl := (List.cons.inj hm).1
      exact Bool.noConfusion (hstop.1.symm.trans (hall c (by simp)))
  · rcases m with - | ⟨d, m⟩
    · exact hstop.2 (List.cons.inj hm).1.symm
    · obtain rfl := (List.cons.inj hm).1
      rw [List.append_assoc, List.cons_append, takeIri_written hall] at h
      contradiction

theorem takeName_filled (ha : OpensSlot a) (hb : Marked b)
    (h : takeName (p ++ a) = some (t, r ++ a)) : takeName (p ++ b) = some (t, r ++ b) := by
  rcases takeName_slot ha p with ⟨found, hfound, hlength⟩ | hbefore
  · obtain rfl := Option.some.inj (hfound.symm.trans h)
    simp only [List.length_append] at hlength
    omega
  · rw [hbefore b hb]
    exact map_behind (hbefore a ha.marked ▸ h) b

theorem takeToken_other_filled {c : Char} (hc : c ∉ leaders)
    (hlabel : ¬(c = '_' ∧ p.head? = some ':')) (ha : OpensSlot a) (hb : OpensTerm b)
    (h : takeToken (c :: p ++ a) = some (t, r ++ a)) :
    takeToken (c :: p ++ b) = some (t, r ++ b) := by
  have hbehind : ∀ {tail}, Marked tail → ¬(c = '_' ∧ (p ++ tail).head? = some ':') := by
    rintro tail ⟨d, hd, rest, rfl⟩ ⟨hscore, hcolon⟩
    cases p with
    | nil =>
        obtain rfl := Option.some.inj hcolon
        exact absurd hd (by decide)
    | cons e p => exact hlabel ⟨hscore, hcolon⟩
  have hother : ∀ {tail}, Marked tail → takeToken (c :: p ++ tail) =
      if startsNumber (c :: p) then
        ((takeNumber (c :: p)).map fun found =>
          (Token.number found.1 found.2.1, found.2.2)).map (behind tail)
      else if isNameStart c then takeName (c :: p ++ tail)
      else (takeSign (c :: p)).map (behind tail) := by
    intro tail htail
    rw [List.cons_append, takeToken_other hc (hbehind htail), ← List.cons_append,
      startsNumber_append htail, takeNumber_append htail, takeSign_append htail, Option.map_map,
      Option.map_map]
    rfl
  rw [hother ha.marked] at h
  rw [hother hb.marked]
  split at h
  · next hnumber =>
      rw [if_pos hnumber]
      exact map_behind h b
  · next hnumber =>
      rw [if_neg hnumber]
      split at h
      · next hname =>
          rw [if_pos hname]
          exact takeName_filled ha hb.marked h
      · next hname =>
          rw [if_neg hname]
          exact map_behind h b

/-- A token in front of a slot is the same in front of a term, unless it is a text in double quotes
that stands right before it. -/
theorem takeToken_filled (ha : OpensSlot a) (hb : OpensTerm b) (hp : p ≠ [])
    (hquote : p.head? = some '"' → r ≠ []) (h : takeToken (p ++ a) = some (t, r ++ a)) :
    takeToken (p ++ b) = some (t, r ++ b) := by
  rcases p with - | ⟨c, p⟩
  · contradiction
  have hhead : ∀ q, q ≠ '<' → (q = '"' → r ≠ []) → (r ++ b).head? = some q →
      (r ++ a).head? = some q := by
    intro q hbracket hdouble hbq
    cases r with
    | nil =>
        obtain ⟨d, rest, rfl, rfl | rfl⟩ := hb
        · exact absurd (Option.some.inj hbq).symm hbracket
        · exact absurd rfl (hdouble (Option.some.inj hbq).symm)
    | cons d r => exact hbq
  have hleft := ha.marked
  have hright := hb.marked
  by_cases hc : c ∈ leaders
  -- An opening bracket may be a sign in either text, and the other leaders have one scanner each.
  · simp only [leaders, List.mem_cons, List.not_mem_nil, or_false] at hc
    rw [List.cons_append] at h ⊢
    rcases hc with rfl | rfl | rfl | rfl | rfl | rfl | rfl | rfl | rfl
    · change (takeIri (p ++ a)).or (takeSign ('<' :: p ++ a)) = _ at h
      change (takeIri (p ++ b)).or (takeSign ('<' :: p ++ b)) = _
      cases hiri : takeIri (p ++ a) with
      | some found =>
          rw [hiri, Option.some_or] at h
          rw [takeIri_filled (hiri.trans h) b, Option.some_or]
      | none =>
          rw [hiri, Option.none_or, takeSign_append hleft] at h
          rw [takeIri_eq_none hiri hb, Option.none_or, takeSign_append hright]
          exact map_behind h b
    · exact takeText_filled (by decide) h (hhead '"' (by decide) fun _ => hquote rfl)
    · exact takeText_filled (by decide) h (hhead '\'' (by decide) fun hne => absurd hne (by decide))
    · change (takeVar (p ++ a)).or (takeSign ('?' :: p ++ a)) = _ at h
      change (takeVar (p ++ b)).or (takeSign ('?' :: p ++ b)) = _
      rw [takeVar_append hleft, takeSign_append hleft, ← Option.map_or] at h
      rw [takeVar_append hright, takeSign_append hright, ← Option.map_or]
      exact map_behind h b
    · change takeVar (p ++ a) = _ at h
      change takeVar (p ++ b) = _
      rw [takeVar_append hleft] at h
      rw [takeVar_append hright]
      exact map_behind h b
    · change takeTag (p ++ a) = _ at h
      change takeTag (p ++ b) = _
      rw [takeTag_append (hleft.stops (by decide))] at h
      rw [takeTag_append (hright.stops (by decide))]
      exact map_behind h b
    · exact takeName_filled (p := ':' :: p) ha hright h
    · change takeToken.signed ['+'] (p ++ a) = _ at h
      change takeToken.signed ['+'] (p ++ b) = _
      rw [signed_append hleft] at h
      rw [signed_append hright]
      exact map_behind h b
    · change takeToken.signed ['-'] (p ++ a) = _ at h
      change takeToken.signed ['-'] (p ++ b) = _
      rw [signed_append hleft] at h
      rw [signed_append hright]
      exact map_behind h b
  · by_cases hlabel : c = '_' ∧ p.head? = some ':'
    · obtain ⟨rfl, hcolon⟩ := hlabel
      obtain ⟨p, rfl⟩ := List.head?_eq_some_iff.mp hcolon
      change takeLabel (p ++ a) = _ at h
      change takeLabel (p ++ b) = _
      rw [takeLabel_append hleft] at h
      rw [takeLabel_append hright]
      exact map_behind h b
    · exact takeToken_other_filled hc hlabel ha hb h

end EntityMapping.Sparql.Lexer
