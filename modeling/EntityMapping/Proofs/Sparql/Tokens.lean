import EntityMapping.Proofs.Sparql.Cutting

/-!
Single tokens and what stands behind them.

A token that ends where a text ends also ends there when more text follows, as long as that text
begins with a character that the token cannot go on with; a gap always does.  This is shown for the
tokens that terms are written with: quoted texts, language tags and references.
-/

namespace EntityMapping.Sparql.Lexer

/-- A text whose first character, if it has one, is not of a kind. -/
def Stops (p : Char → Bool) (tail : List Char) : Prop :=
  tail.head?.any p = false

theorem Detached.stops {tail : List Char} (h : Detached tail) {p : Char → Bool}
    (hspace : p ' ' = false) (hline : p '\n' = false) : Stops p tail := by
  cases h with
  | nothing => rfl
  | gap hc rest =>
      rcases hc with rfl | rfl
      · exact hspace
      · exact hline

theorem Stops.head?_ne {p : Char → Bool} {tail : List Char} (h : Stops p tail) {c : Char}
    (hc : p c = true) : tail.head? ≠ some c := by
  intro hhead
  rw [Stops, hhead, Option.any_some, hc] at h
  contradiction

theorem Stops.mono {p q : Char → Bool} (hpq : ∀ c, q c = true → p c = true) {tail : List Char}
    (h : Stops p tail) : Stops q tail := by
  cases tail with
  | nil => rfl
  | cons c rest =>
      refine Bool.eq_false_iff.mpr fun hq => ?_
      exact Bool.noConfusion ((hpq c hq).symm.trans h)

theorem Detached.head?_ne {tail : List Char} (h : Detached tail) {q : Char} (hspace : q ≠ ' ')
    (hline : q ≠ '\n') : tail.head? ≠ some q :=
  (h.stops (p := (· == q)) (beq_false_of_ne hspace.symm) (beq_false_of_ne hline.symm)).head?_ne
    (beq_self_eq_true q)

/-- A run of characters ends at a text that begins with no such character. -/
theorem takeRun_append {p : Char → Bool} {tail : List Char} (h : Stops p tail)
    (cs : List Char) :
    takeRun p (cs ++ tail) = ((takeRun p cs).1, (takeRun p cs).2 ++ tail) := by
  induction cs with
  | nil =>
      cases tail with
      | nil => rfl
      | cons c rest =>
          have hc : p c = false := h
          simp [takeRun, hc]
  | cons c rest ih =>
      simp only [takeRun, Prod.mk.injEq, List.cons_append] at ih ⊢
      cases hp : p c with
      | false => simp [hp]
      | true => simp [hp, ih]

/-- A run that is followed by another kind of text is taken as a whole. -/
theorem takeRun_of_all {p : Char → Bool} {cs tail : List Char} (hcs : ∀ c ∈ cs, p c = true)
    (htail : Stops p tail) : takeRun p (cs ++ tail) = (cs, tail) := by
  have hnone := takeRun_append htail []
  simp only [takeRun, List.nil_append, List.takeWhile_nil, List.dropWhile_nil, Prod.mk.injEq]
    at hnone
  rw [takeRun, List.takeWhile_append_of_pos hcs, List.dropWhile_append_of_pos hcs, hnone.1,
    hnone.2, List.append_nil]

theorem takeRun_length_le (p : Char → Bool) (cs : List Char) :
    (takeRun p cs).2.length ≤ cs.length :=
  (List.dropWhile_suffix p).length_le

/-- What a scanner has found, with more text behind. -/
def behind (tail : List Char) (found : Token × List Char) : Token × List Char :=
  (found.1, found.2 ++ tail)

/-! ### Quoted texts -/

section Quoted

variable {q : Char}

theorem takeLine_plain {c : Char} (hc : c ≠ '\\') (rest : List Char) :
    takeLine q (c :: rest) =
      if c == q then (if rest.head? == some q then none else some ([], rest))
      else if c == '\n' || c == '\r' || c == '\\' then none
      else (takeLine q rest).map fun (more, rest) => (c :: more, rest) := by
  rw [takeLine.eq_3 _ _ _ fun _ _ h => absurd h hc]
  cases takeLine q rest <;> rfl

/-- A text on one line ends in front of anything but another quote, and is the same there. -/
theorem takeLine_eq_some (hq : q ≠ '\\') {cs s rest : List Char}
    (h : takeLine q cs = some (s, rest)) :
    rest.head? ≠ some q ∧ ∃ word, cs = word ++ rest ∧
      ∀ tail, tail.head? ≠ some q → takeLine q (word ++ tail) = some (s, tail) := by
  induction cs using takeLine.induct q generalizing s with
  | case1 => simp [takeLine] at h
  | case2 c more ih =>
      simp only [takeLine, Option.bind_eq_bind, Option.bind_eq_some_iff] at h
      obtain ⟨d, hd, ⟨found, behind⟩, hfound, hs⟩ := h
      obtain ⟨rfl, rfl⟩ := Prod.mk.inj (Option.some.inj hs)
      obtain ⟨hhead, word, rfl, hword⟩ := ih hfound
      refine ⟨hhead, '\\' :: c :: word, rfl, fun tail htail => ?_⟩
      simp [takeLine, hd, hword tail htail]
  | case3 c more hno hquote hnext =>
      rw [takeLine.eq_3 _ _ _ hno, if_pos hquote, if_pos hnext] at h
      contradiction
  | case4 c more hno hquote hnext =>
      obtain rfl := beq_iff_eq.mp hquote
      rw [takeLine_plain hq, if_pos hquote, if_neg hnext] at h
      obtain ⟨rfl, rfl⟩ := Prod.mk.inj (Option.some.inj h)
      refine ⟨by simpa using hnext, [c], rfl, fun tail htail => ?_⟩
      rw [List.singleton_append, takeLine_plain hq, if_pos hquote, if_neg (by simpa using htail)]
  | case5 c more hno hquote hstop =>
      rw [takeLine.eq_3 _ _ _ hno, if_neg hquote, if_pos hstop] at h
      contradiction
  | case6 c more hno hquote hstop ih =>
      have hc : c ≠ '\\' := fun hc => hstop (by simp [hc])
      rw [takeLine_plain hc, if_neg hquote, if_neg hstop, Option.map_eq_some_iff] at h
      obtain ⟨⟨found, behind⟩, hfound, hs⟩ := h
      obtain ⟨rfl, rfl⟩ := Prod.mk.inj hs
      obtain ⟨hhead, word, rfl, hword⟩ := ih hfound
      refine ⟨hhead, c :: word, rfl, fun tail htail => ?_⟩
      rw [List.cons_append, takeLine_plain hc, if_neg hquote, if_neg hstop, hword tail htail]
      rfl

theorem takeLines_plain {c : Char} (hc : c ≠ '\\') (rest : List Char) :
    takeLines q (c :: rest) =
      if c == q && [q, q].isPrefixOf rest then some ([], rest.drop 2)
      else (takeLines q rest).map fun (more, rest) => (c :: more, rest) := by
  have hstop : (c == '\\') = false := beq_false_of_ne hc
  rw [takeLines.eq_3 _ _ _ fun _ _ h => absurd h hc, hstop]
  cases takeLines q rest <;> rfl

theorem eq_cons_of_isPrefixOf {cs : List Char} (h : [q, q].isPrefixOf cs = true) :
    cs = q :: q :: cs.drop 2 := by
  obtain ⟨rest, rfl⟩ := List.isPrefixOf_iff_prefix.mp h
  rfl

theorem isPrefixOf_append {word : List Char} (hword : 2 ≤ word.length) (tail : List Char) :
    [q, q].isPrefixOf (word ++ tail) = [q, q].isPrefixOf word := by
  rcases word with - | ⟨c, - | ⟨d, word⟩⟩
  · simp at hword
  · simp at hword
  · rfl

/-- A text on several lines ends at its tripled quote, whatever stands behind. -/
theorem takeLines_eq_some (hq : q ≠ '\\') {cs s rest : List Char}
    (h : takeLines q cs = some (s, rest)) :
    ∃ word, cs = word ++ rest ∧ 3 ≤ word.length ∧
      ∀ tail, takeLines q (word ++ tail) = some (s, tail) := by
  induction cs using takeLines.induct q generalizing s with
  | case1 => simp [takeLines] at h
  | case2 c more ih =>
      simp only [takeLines, Option.bind_eq_bind, Option.bind_eq_some_iff] at h
      obtain ⟨d, hd, ⟨found, behind⟩, hfound, hs⟩ := h
      obtain ⟨rfl, rfl⟩ := Prod.mk.inj (Option.some.inj hs)
      obtain ⟨word, rfl, hlength, hword⟩ := ih hfound
      refine ⟨'\\' :: c :: word, rfl, Nat.le_add_right_of_le (Nat.le_succ_of_le hlength),
        fun tail => ?_⟩
      simp [takeLines, hd, hword tail]
  | case3 c more hno hclosing =>
      have hc : c = q ∧ [q, q].isPrefixOf more = true := by simpa using hclosing
      obtain ⟨rfl, hmore⟩ := hc
      rw [takeLines_plain hq, if_pos hclosing] at h
      obtain ⟨rfl, rfl⟩ := Prod.mk.inj (Option.some.inj h)
      refine ⟨[c, c, c], congrArg (c :: ·) (eq_cons_of_isPrefixOf hmore), Nat.le_refl 3,
        fun tail => ?_⟩
      rw [List.cons_append, takeLines_plain hq, if_pos (by simp [List.isPrefixOf])]
      rfl
  | case4 c more hno hclosing hstop =>
      rw [takeLines.eq_3 _ _ _ hno, if_neg hclosing, if_pos hstop] at h
      contradiction
  | case5 c more hno hclosing hstop ih =>
      have hc : c ≠ '\\' := fun hc => hstop (by simp [hc])
      rw [takeLines_plain hc, if_neg hclosing, Option.map_eq_some_iff] at h
      obtain ⟨⟨found, behind⟩, hfound, hs⟩ := h
      obtain ⟨rfl, rfl⟩ := Prod.mk.inj hs
      obtain ⟨word, rfl, hlength, hword⟩ := ih hfound
      have htwo : 2 ≤ word.length := Nat.le_of_succ_le hlength
      rw [isPrefixOf_append htwo] at hclosing
      refine ⟨c :: word, rfl, Nat.le_succ_of_le hlength, fun tail => ?_⟩
      rw [List.cons_append, takeLines_plain hc, isPrefixOf_append htwo, if_neg hclosing,
        hword tail]
      rfl

/-- A quoted text is the same in front of any other text, unless only that one begins with the
quote. -/
theorem takeText_eq_some (hq : q ≠ '\\') {cs rest : List Char} {t : Token}
    (h : takeText q cs = some (t, rest)) :
    ∃ word, cs = word ++ rest ∧ word ≠ [] ∧
      ∀ tail, (tail.head? = some q → rest.head? = some q) →
        takeText q (word ++ tail) = some (t, tail) := by
  obtain ⟨⟨s, behind⟩, hfound, ht⟩ := Option.map_eq_some_iff.mp h
  obtain ⟨rfl, rfl⟩ := Prod.mk.inj ht
  by_cases hopening : [q, q].isPrefixOf cs = true
  · rw [if_pos hopening] at hfound
    obtain ⟨word, hcs, -, hword⟩ := takeLines_eq_some hq hfound
    refine ⟨q :: q :: word, ?_, by simp, fun tail _ => ?_⟩
    · rw [eq_cons_of_isPrefixOf hopening, hcs]
      rfl
    · have hagain : [q, q].isPrefixOf (q :: q :: word ++ tail) = true := by
        simp [List.isPrefixOf]
      rw [takeText, if_pos hagain]
      change (takeLines q (word ++ tail)).map _ = _
      rw [hword tail]
      rfl
  · rw [if_neg hopening] at hfound
    obtain ⟨hhead, word, rfl, hword⟩ := takeLine_eq_some hq hfound
    have hne : word ≠ [] := by
      rintro rfl
      have hnone := hword [] (by simp)
      rw [List.nil_append, takeLine] at hnone
      contradiction
    refine ⟨word, rfl, hne, fun tail htail => ?_⟩
    have hother : tail.head? ≠ some q := fun hq => hhead (htail hq)
    have hagain : ¬[q, q].isPrefixOf (word ++ tail) = true := by
      intro hprefix
      rcases word with - | ⟨c, - | ⟨d, word⟩⟩
      · contradiction
      · have htail : tail = q :: _ := (List.cons.inj (eq_cons_of_isPrefixOf hprefix)).2
        exact hother (by rw [htail]; rfl)
      · exact hopening hprefix
    rw [takeText, if_neg hagain, hword tail hother]
    rfl

theorem takeText_append (hq : q ≠ '\\') {cs rest tail : List Char} {t : Token}
    (h : takeText q cs = some (t, rest)) (htail : tail.head? ≠ some q) :
    takeText q (cs ++ tail) = some (t, rest ++ tail) := by
  obtain ⟨word, rfl, -, hword⟩ := takeText_eq_some hq h
  rw [List.append_assoc]
  refine hword _ fun hhead => ?_
  cases rest with
  | nil => exact absurd hhead htail
  | cons c rest => exact hhead

theorem takeText_length (hq : q ≠ '\\') {cs rest : List Char} {t : Token}
    (h : takeText q cs = some (t, rest)) : rest.length < cs.length := by
  obtain ⟨word, rfl, hne, -⟩ := takeText_eq_some hq h
  simpa using List.length_pos_of_ne_nil hne

end Quoted

/-! ### References -/

theorem takeIri_written {s : List Char} (h : ∀ c ∈ s, isIriChar c = true) (rest : List Char) :
    takeIri (s ++ '>' :: rest) = some (.iri (String.ofList s), rest) := by
  rw [takeIri, takeRun_of_all h (show Stops isIriChar ('>' :: rest) by rfl)]
  rfl

theorem takeToken_iri {s : String} (h : ∀ c ∈ s.toList, isIriChar c = true) (rest : List Char) :
    takeToken ('<' :: (s.toList ++ '>' :: rest)) = some (.iri s, rest) := by
  change (takeIri (s.toList ++ '>' :: rest)).or _ = _
  rw [takeIri_written h, String.ofList_toList]
  rfl

theorem takeIri_eq_some {cs rest : List Char} {t : Token} (h : takeIri cs = some (t, rest)) :
    ∃ s, cs = s ++ '>' :: rest ∧ t = .iri (String.ofList s) ∧ ∀ c ∈ s, isIriChar c = true := by
  unfold takeIri at h
  split at h
  · next body more hrun =>
      obtain ⟨rfl, rfl⟩ := Prod.mk.inj (Option.some.inj h)
      obtain ⟨rfl, hbehind⟩ := Prod.mk.inj hrun
      refine ⟨_, ?_, rfl, List.all_eq_true.mp List.all_takeWhile⟩
      rw [← hbehind, List.takeWhile_append_dropWhile]
  · contradiction

/-- A reference ends at its closing bracket, whatever stands behind. -/
theorem takeIri_append {cs rest : List Char} {t : Token} (h : takeIri cs = some (t, rest))
    (tail : List Char) : takeIri (cs ++ tail) = some (t, rest ++ tail) := by
  obtain ⟨s, rfl, rfl, hs⟩ := takeIri_eq_some h
  rw [List.append_assoc, List.cons_append, takeIri_written hs]

/-! ### Language tags -/

/-- Characters that a language tag may go on with. -/
def isTagPart (c : Char) : Bool :=
  c.isAlphanum || c == '-'

theorem Stops.isAlphanum {tail : List Char} (h : Stops isTagPart tail) :
    Stops Char.isAlphanum tail :=
  h.mono fun c hc => by rw [isTagPart, hc, Bool.true_or]

theorem Stops.isAlpha {tail : List Char} (h : Stops isTagPart tail) : Stops Char.isAlpha tail :=
  h.isAlphanum.mono fun c hc => by rw [Char.isAlphanum, hc, Bool.true_or]

theorem parts_hyphen (fuel : Nat) (more : List Char) :
    takeTag.parts (fuel + 1) ('-' :: more) =
      if (takeRun Char.isAlphanum more).1 = [] then ([], '-' :: more)
      else ('-' :: (takeRun Char.isAlphanum more).1 ++
          (takeTag.parts fuel (takeRun Char.isAlphanum more).2).1,
        (takeTag.parts fuel (takeRun Char.isAlphanum more).2).2) := by
  rw [takeTag.parts]
  rcases takeRun Char.isAlphanum more with ⟨- | ⟨c, part⟩, rest⟩
  · rfl
  · rfl

theorem parts_other {cs : List Char} (h : cs.head? ≠ some '-') (fuel : Nat) :
    takeTag.parts fuel cs = ([], cs) := by
  cases fuel with
  | zero => rfl
  | succ fuel =>
      rw [takeTag.parts]
      rintro more rfl
      exact h rfl

theorem parts_append {n m : Nat} {cs tail : List Char} (htail : Stops isTagPart tail)
    (hn : cs.length ≤ n) (hm : cs.length ≤ m) :
    takeTag.parts n (cs ++ tail) =
      ((takeTag.parts m cs).1, (takeTag.parts m cs).2 ++ tail) := by
  induction n generalizing m cs with
  | zero =>
      obtain rfl := List.eq_nil_of_length_eq_zero (Nat.le_zero.1 hn)
      rw [parts_other (show ([] : List Char).head? ≠ some '-' by simp)]
      rfl
  | succ n ih =>
      rcases cs with - | ⟨c, more⟩
      · rw [parts_other (show ([] : List Char).head? ≠ some '-' by simp), List.nil_append,
          parts_other (htail.head?_ne (by decide))]
      · by_cases hc : c = '-'
        · subst hc
          obtain ⟨m, rfl⟩ := Nat.exists_eq_succ_of_ne_zero
            (Nat.ne_of_gt (Nat.lt_of_lt_of_le (Nat.succ_pos _) hm))
          have hle := takeRun_length_le Char.isAlphanum more
          simp only [List.length_cons] at hn hm
          rw [List.cons_append, parts_hyphen, parts_hyphen, takeRun_append htail.isAlphanum]
          simp only
          rw [ih (m := m) (by omega) (by omega)]
          by_cases hpart : (takeRun Char.isAlphanum more).1 = []
          · simp [hpart]
          · simp [hpart]
        · rw [parts_other (by simpa using hc), parts_other (by simpa using hc)]

theorem takeTag_append {tail : List Char} (htail : Stops isTagPart tail) (cs : List Char) :
    takeTag (cs ++ tail) = (takeTag cs).map (behind tail) := by
  have hrun := takeRun_append htail.isAlpha cs
  unfold takeTag
  rw [hrun]
  rcases takeRun Char.isAlpha cs with ⟨- | ⟨c, head⟩, rest⟩
  · rfl
  · have hparts := parts_append (n := (rest ++ tail).length) (m := rest.length) htail
      (by simp) (Nat.le_refl _)
    simp only [hparts]
    rfl

/-! ### Where tokens begin -/

/-- The characters that decide by themselves which scanner is used. -/
def leaders : List Char :=
  ['<', '"', '\'', '?', '$', '@', ':', '+', '-']

theorem takeToken_other {c : Char} {cs : List Char} (hc : c ∉ leaders)
    (hlabel : ¬(c = '_' ∧ cs.head? = some ':')) :
    takeToken (c :: cs) =
      if startsNumber (c :: cs) then
        (takeNumber (c :: cs)).map fun found => (.number found.1 found.2.1, found.2.2)
      else if isNameStart c then takeName (c :: cs)
      else takeSign (c :: cs) := by
  have hne : ∀ d ∈ leaders, c ≠ d := fun d hd hcd => hc (hcd ▸ hd)
  rw [takeToken.eq_12 c cs (hne _ (by decide)) (hne _ (by decide)) (hne _ (by decide))
    (hne _ (by decide)) (hne _ (by decide)) (hne _ (by decide))
    (fun rest hscore hcolon => hlabel ⟨hscore, by rw [hcolon]; rfl⟩) (hne _ (by decide))
    (hne _ (by decide)) (hne _ (by decide))]

/-- Characters that stand between tokens, or in front of what does. -/
def separators : List Char :=
  [' ', '\t', '\n', '\r', '#']

theorem forall_separators {p : Char → Prop} (h : p ' ' ∧ p '\t' ∧ p '\n' ∧ p '\r' ∧ p '#') :
    ∀ c ∈ separators, p c := by
  simpa [separators] using h

theorem takeSign_separator {c : Char} (hc : c ∈ separators) (cs : List Char) :
    takeSign (c :: cs) = none := by
  have hfirst : ∀ d ∈ separators, ∀ s ∈ twoCharSigns, s.toList.head? ≠ some d :=
    forall_separators (by decide)
  have hone : ∀ d ∈ separators, oneCharSigns.contains d = false := forall_separators (by decide)
  have htwo : twoCharSigns.contains (String.ofList ((c :: cs).take 2)) = false := by
    refine Bool.eq_false_iff.mpr fun hmem => ?_
    exact hfirst c hc _ (List.contains_iff_mem.mp hmem) (by simp)
  simp only [takeSign, htwo, hone c hc, Bool.false_eq_true, if_false]

theorem takeToken_separator {c : Char} (hc : c ∈ separators) (cs : List Char) :
    takeToken (c :: cs) = none := by
  have hkind : ∀ d ∈ separators, d ∉ leaders ∧ d ≠ '_' ∧ d.isDigit = false ∧ (d == '.') = false ∧
      isNameStart d = false := forall_separators (by decide)
  obtain ⟨hleader, hscore, hdigit, hpoint, hname⟩ := hkind c hc
  have hnumber : startsNumber (c :: cs) = false := by
    cases cs <;> simp [startsNumber, hdigit, hpoint]
  rw [takeToken_other hleader fun h => hscore h.1, hnumber, hname, takeSign_separator hc]
  rfl

/-- No token begins with a blank or as a comment does. -/
theorem begins_of_takeToken {c : Char} {cs : List Char} {found : Token × List Char}
    (h : takeToken (c :: cs) = some found) : Begins c := by
  have hnot : c ∉ separators := by
    intro hc
    rw [takeToken_separator hc] at h
    contradiction
  refine ⟨Bool.eq_false_iff.mpr fun hspace => hnot ?_,
    fun hcomment => hnot (by simp [hcomment, separators])⟩
  simp only [isSpace, Bool.or_eq_true, beq_iff_eq] at hspace
  rcases hspace with ((rfl | rfl) | rfl) | rfl <;> decide

theorem tokensWithin_token {c : Char} {cs rest : List Char} {t : Token} {ts : List Token}
    {fuel : Nat} (ht : takeToken (c :: cs) = some (t, rest))
    (h : tokensWithin fuel (c :: cs) = some ts) :
    ∃ n us, ts = t :: us ∧ tokensWithin n rest = some us := by
  cases fuel with
  | zero => contradiction
  | succ n =>
      simp only [tokensWithin, skipBlank_cons (begins_of_takeToken ht), ht, Option.bind_eq_bind,
        Option.bind_some, Option.bind_eq_some_iff] at h
      obtain ⟨us, hus, hts⟩ := h
      exact ⟨n, us, (Option.some.inj hts).symm, hus⟩

/-! ### Which scanner a token comes from -/

/-- What the tokens of written terms come from: each kind has a mark and a scanner of its own.
Nothing is said about other tokens. -/
def Scanned (cs : List Char) (t : Token) (rest : List Char) : Prop :=
  match t with
  | .iri _ => ∃ more, cs = '<' :: more ∧ takeIri more = some (t, rest)
  | .tag _ => ∃ more, cs = '@' :: more ∧ takeTag more = some (t, rest)
  | .sign s => s = "^^" → cs = '^' :: '^' :: rest
  | _ => True

theorem scanned_takeSign {cs rest : List Char} {t : Token} (h : takeSign cs = some (t, rest)) :
    Scanned cs t rest := by
  unfold takeSign at h
  simp only at h
  split at h
  · obtain ⟨rfl, rfl⟩ := Prod.mk.inj (Option.some.inj h)
    intro htwo
    have hfirst : cs.take 2 = ['^', '^'] := by
      rw [← String.toList_ofList (l := cs.take 2), htwo]
      rfl
    rw [← List.take_append_drop 2 cs, hfirst]
    simp
  · rcases cs with - | ⟨c, more⟩
    · contradiction
    · simp only at h
      split at h
      · obtain ⟨rfl, rfl⟩ := Prod.mk.inj (Option.some.inj h)
        intro hone
        have := congrArg String.toList hone
        simp at this
      · contradiction

theorem scanned_takeName {cs more rest : List Char} {t : Token}
    (h : takeName more = some (t, rest)) : Scanned cs t rest := by
  unfold takeName at h
  simp only at h
  split at h
  · obtain ⟨rfl, rfl⟩ := Prod.mk.inj (Option.some.inj h)
    trivial
  · split at h
    · contradiction
    · obtain ⟨rfl, rfl⟩ := Prod.mk.inj (Option.some.inj h)
      trivial

theorem scanned_takeVar {cs more rest : List Char} {t : Token}
    (h : takeVar more = some (t, rest)) : Scanned cs t rest := by
  unfold takeVar at h
  split at h
  · split at h
    · obtain ⟨rfl, rfl⟩ := Prod.mk.inj (Option.some.inj h)
      trivial
    · contradiction
  · contradiction

theorem scanned_number {cs more rest : List Char} {t : Token} {m : String}
    (h : (takeNumber more).map (fun (lexical, datatype, rest) =>
      (Token.number (m ++ lexical) datatype, rest)) = some (t, rest)) : Scanned cs t rest := by
  obtain ⟨found, -, ht⟩ := Option.map_eq_some_iff.mp h
  obtain ⟨rfl, rfl⟩ := Prod.mk.inj ht
  trivial

theorem scanned_signed {cs more rest : List Char} {t : Token} {c : Char}
    (h : takeToken.signed [c] more = some (t, rest)) : Scanned cs t rest := by
  unfold takeToken.signed at h
  split at h
  · exact scanned_number h
  · obtain ⟨rfl, rfl⟩ := Prod.mk.inj (Option.some.inj h)
    intro hone
    have := congrArg String.toList hone
    simp at this

theorem takeText_eq_text {q : Char} {cs rest : List Char} {t : Token}
    (h : takeText q cs = some (t, rest)) : ∃ s, t = .text s := by
  obtain ⟨found, -, ht⟩ := Option.map_eq_some_iff.mp h
  exact ⟨_, (Prod.mk.inj ht).1.symm⟩

theorem takeTag_eq_tag {cs rest : List Char} {t : Token} (h : takeTag cs = some (t, rest)) :
    ∃ s, t = .tag s := by
  unfold takeTag at h
  split at h
  · contradiction
  · exact ⟨_, (Prod.mk.inj (Option.some.inj h)).1.symm⟩

theorem scanned_takeLabel {cs more rest : List Char} {t : Token}
    (h : takeLabel more = some (t, rest)) : Scanned cs t rest := by
  unfold takeLabel at h
  split at h
  · split at h
    · obtain ⟨rfl, rfl⟩ := Prod.mk.inj (Option.some.inj h)
      trivial
    · contradiction
  · contradiction

theorem scanned_of_takeToken {cs rest : List Char} {t : Token}
    (h : takeToken cs = some (t, rest)) : Scanned cs t rest := by
  unfold takeToken at h
  split at h
  · contradiction
  · next more =>
      rcases hiri : takeIri more with - | ⟨t', rest'⟩
      · rw [hiri] at h
        exact scanned_takeSign h
      · rw [hiri] at h
        obtain ⟨rfl, rfl⟩ := Prod.mk.inj (Option.some.inj h)
        obtain ⟨reference, -, rfl, -⟩ := takeIri_eq_some hiri
        exact ⟨more, rfl, hiri⟩
  · obtain ⟨s, rfl⟩ := takeText_eq_text h
    trivial
  · obtain ⟨s, rfl⟩ := takeText_eq_text h
    trivial
  · next more =>
      rcases hvar : takeVar more with - | ⟨t', rest'⟩
      · rw [hvar] at h
        exact scanned_takeSign h
      · rw [hvar] at h
        obtain ⟨rfl, rfl⟩ := Prod.mk.inj (Option.some.inj h)
        exact scanned_takeVar hvar
  · exact scanned_takeVar h
  · next more =>
      obtain ⟨s, rfl⟩ := takeTag_eq_tag h
      exact ⟨more, rfl, h⟩
  · exact scanned_takeLabel h
  · exact scanned_takeName h
  · exact scanned_signed h
  · exact scanned_signed h
  · split at h
    · exact scanned_number (m := "") (by simpa using h)
    · split at h
      · exact scanned_takeName h
      · exact scanned_takeSign h

end EntityMapping.Sparql.Lexer
