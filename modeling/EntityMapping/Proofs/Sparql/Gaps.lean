import EntityMapping.Proofs.Sparql.Lookahead
import EntityMapping.Proofs.Sparql.Scanning

/-!
Tokens in front of a gap.

A token that ends where a text ends also ends there when a gap follows, whatever kind of token it is.
So a text without escapes and tabs gives its tokens wherever it stands, unless it ends in a comment,
which would go on.
-/

namespace EntityMapping.Sparql.Lexer

variable {c : Char} {cs p r tail : List Char} {t : Token} {ts : List Token}

theorem IsGap.marked (hc : IsGap c) (rest : List Char) : Marked (c :: rest) :=
  ⟨c, by rcases hc with rfl | rfl <;> decide, rest, rfl⟩

/-! ### Local names -/

/-- No escaped character is a gap. -/
theorem localChar_gap (hc : IsGap c) (first : Bool) (cs rest : List Char) :
    localChar first (cs ++ c :: rest) =
      (localChar first cs).map fun found => (found.1, found.2 ++ c :: rest) := by
  by_cases hcs : cs = ['\\']
  · subst hcs
    rcases hc with rfl | rfl <;> cases first <;> rfl
  · exact localChar_append (hc.marked rest) hcs

theorem localStep_gap (hc : IsGap c) (cs rest : List Char) :
    localStep (cs ++ c :: rest) =
      (localStep cs).map fun found => (found.1, found.2 ++ c :: rest) := by
  rw [localStep, localStep, localChar_gap hc,
    takeRun_append ((hc.marked rest).stops (p := (· == '.')) (by decide)), localChar_gap hc]
  cases localChar false cs with
  | some found => rfl
  | none =>
      rcases takeRun (· == '.') cs with ⟨points, more⟩
      cases points <;> cases localChar false more <;> rfl

theorem takeLocalRest_gap (hc : IsGap c) (rest : List Char) {n k : Nat} (hn : cs.length ≤ n)
    (hk : cs.length ≤ k) :
    takeLocalRest k (cs ++ c :: rest) =
      ((takeLocalRest n cs).1, (takeLocalRest n cs).2 ++ c :: rest) := by
  induction n generalizing cs k with
  | zero =>
      obtain rfl := List.eq_nil_of_length_eq_zero (Nat.le_zero.1 hn)
      exact takeLocalRest_marked (hc.marked rest) k
  | succ n ih =>
      cases k with
      | zero =>
          obtain rfl := List.eq_nil_of_length_eq_zero (Nat.le_zero.1 hk)
          rw [takeLocalRest_succ]
          rfl
      | succ k =>
          rw [takeLocalRest_succ, takeLocalRest_succ, localStep_gap hc]
          cases hstep : localStep cs with
          | none => rfl
          | some found =>
              have hlt := localStep_length hstep
              have hmore : takeLocalRest k (found.2 ++ c :: rest) = _ := ih (by omega) (by omega)
              simp [hmore]

theorem takeLocal_gap (hc : IsGap c) (cs rest : List Char) :
    takeLocal (cs ++ c :: rest) = ((takeLocal cs).1, (takeLocal cs).2 ++ c :: rest) := by
  rw [takeLocal, takeLocal, localChar_gap hc]
  cases localChar true cs with
  | none => rfl
  | some found =>
      have hmore := takeLocalRest_gap hc rest (n := found.2.length) (Nat.le_refl _)
        (k := (found.2 ++ c :: rest).length) (by simp)
      simp only [Option.map_some, hmore]

theorem takeName_gap (hc : IsGap c) (cs rest : List Char) :
    takeName (cs ++ c :: rest) = (takeName cs).map (behind (c :: rest)) := by
  have hmark := hc.marked rest
  rcases hname : takePointed isNamePart cs with ⟨label, more⟩
  have hpointed : takePointed isNamePart (cs ++ c :: rest) = (label, more ++ c :: rest) := by
    rw [takePointed_append (hmark.stops (by decide)), hname]
  by_cases hmore : more.head? = some ':'
  · obtain ⟨more, rfl⟩ := List.head?_eq_some_iff.mp hmore
    have hcolon : takePointed isNamePart (cs ++ c :: rest) = (label, ':' :: (more ++ c :: rest)) :=
      hpointed
    rw [takeName_colon hcolon, takeName_colon hname, takeLocal_gap hc]
    rfl
  · have hhead : (more ++ c :: rest).head? ≠ some ':' := by
      cases more with
      | nil => rcases hc with rfl | rfl <;> simp
      | cons d more => exact hmore
    rw [takeName_word hpointed hhead, takeName_word hname hmore, takeWord_append hmark]

/-! ### Tokens -/

/-- A bracket that opens no reference in a text opens none in front of a gap. -/
theorem takeIri_gap (hc : IsGap c) (cs rest : List Char) :
    takeIri (cs ++ c :: rest) = (takeIri cs).map (behind (c :: rest)) := by
  rw [takeIri, takeRun_append ((Detached.gap hc rest).stops rfl rfl), takeIri]
  rcases takeRun isIriChar cs with ⟨body, - | ⟨d, more⟩⟩
  · rcases hc with rfl | rfl <;> rfl
  · by_cases hd : d = '>'
    · subst hd
      rfl
    · simp [hd]

/-- All tokens but quoted texts. -/
theorem takeToken_gap_of_ne (hc : IsGap c) {d : Char} (hdouble : d ≠ '"') (hsingle : d ≠ '\'')
    (cs rest : List Char) :
    takeToken (d :: cs ++ c :: rest) = (takeToken (d :: cs)).map (behind (c :: rest)) := by
  have hmark := hc.marked rest
  by_cases hd : d ∈ leaders
  · simp only [leaders, List.mem_cons, List.not_mem_nil, or_false] at hd
    rcases hd with rfl | rfl | rfl | rfl | rfl | rfl | rfl | rfl | rfl
    · change (takeIri (cs ++ c :: rest)).or (takeSign ('<' :: cs ++ c :: rest)) = _
      rw [takeIri_gap hc, takeSign_append hmark, ← Option.map_or]
      rfl
    · exact absurd rfl hdouble
    · exact absurd rfl hsingle
    · change (takeVar (cs ++ c :: rest)).or (takeSign ('?' :: cs ++ c :: rest)) = _
      rw [takeVar_append hmark, takeSign_append hmark, ← Option.map_or]
      rfl
    · exact takeVar_append hmark cs
    · exact takeTag_append (hmark.stops (by decide)) cs
    · exact takeName_gap hc (':' :: cs) rest
    · exact signed_append hmark ['+'] cs
    · exact signed_append hmark ['-'] cs
  · by_cases hlabel : d = '_' ∧ cs.head? = some ':'
    · obtain ⟨rfl, hcolon⟩ := hlabel
      obtain ⟨cs, rfl⟩ := List.head?_eq_some_iff.mp hcolon
      exact takeLabel_append hmark cs
    · have hbehind : ¬(d = '_' ∧ (cs ++ c :: rest).head? = some ':') := by
        rintro ⟨hscore, hcolon⟩
        cases cs with
        | nil => rcases hc with rfl | rfl <;> simp at hcolon
        | cons e cs => exact hlabel ⟨hscore, hcolon⟩
      rw [List.cons_append, takeToken_other hd hbehind, takeToken_other hd hlabel,
        ← List.cons_append, startsNumber_append hmark, takeNumber_append hmark, takeName_gap hc,
        takeSign_append hmark, Option.map_map]
      split
      · rw [Option.map_map]
        rfl
      · split <;> rfl

/-- A token of a text is a token of it in front of a gap. -/
theorem takeToken_gap (hc : IsGap c) (rest : List Char) (h : takeToken cs = some (t, r)) :
    takeToken (cs ++ c :: rest) = some (t, r ++ c :: rest) := by
  have hquote : ∀ q, q ≠ ' ' → q ≠ '\n' → (c :: rest).head? ≠ some q := fun q hspace hline =>
    (Detached.gap hc rest).head?_ne hspace hline
  rcases cs with - | ⟨d, cs⟩
  · contradiction
  by_cases hdouble : d = '"'
  · subst hdouble
    exact takeText_append (by decide) h (hquote _ (by decide) (by decide))
  · by_cases hsingle : d = '\''
    · subst hsingle
      exact takeText_append (by decide) h (hquote _ (by decide) (by decide))
    · rw [takeToken_gap_of_ne hc hdouble hsingle, h]
      rfl

/-! ### Whole texts -/

/-- What becomes of a text that is skipped when more text stands behind it: something of it is left, or
nothing is and what stands behind is skipped as blank, or as the rest of a comment. -/
def Skips (skip : List Char → List Char) (cs : List Char) : Prop :=
  (skip cs ≠ [] ∧ ∀ tail, skip (cs ++ tail) = skip cs ++ tail) ∨
    (skip cs = [] ∧ ∀ tail, skip (cs ++ tail) = skipBlank tail) ∨
    ∀ tail, skip (cs ++ tail) = skipBlank.skipComment tail

theorem skips (cs : List Char) : Skips skipBlank cs ∧ Skips skipBlank.skipComment cs := by
  induction cs with
  | nil => exact ⟨.inr (.inl ⟨rfl, fun _ => rfl⟩), .inr (.inr fun _ => rfl)⟩
  | cons c cs ih =>
      obtain ⟨hblank, hcomment⟩ := ih
      constructor
      · by_cases hc : c = '#'
        · subst hc
          exact hcomment
        · by_cases hspace : isSpace c = true
          · have hskip : ∀ rest, skipBlank (c :: rest) = skipBlank rest := skipBlank_space hspace
            unfold Skips
            simp only [List.cons_append, hskip]
            exact hblank
          · have hbegins : Begins c := ⟨Bool.eq_false_iff.mpr hspace, hc⟩
            refine .inl ⟨?_, fun tail => ?_⟩
            · rw [skipBlank_cons hbegins]
              exact List.cons_ne_nil _ _
            · rw [List.cons_append, skipBlank_cons hbegins, skipBlank_cons hbegins]
              rfl
      · by_cases hc : c = '\n'
        · subst hc
          exact hblank
        · have hskip : ∀ rest, skipBlank.skipComment (c :: rest) = skipBlank.skipComment rest :=
            fun rest => skipBlank.skipComment.eq_3 _ _ (by simpa using hc)
          unfold Skips
          simp only [List.cons_append, hskip]
          exact hcomment

/-- The tokens of a text whose last comment ends, if it has one, are its tokens in front of any text
that does not run on from it. -/
theorem cuts_append {n m : Nat} (h : tokensWithin n cs = some ts)
    (hclosed : tokensWithin m (cs ++ [' ', '\x7d']) = some (ts ++ [.sign "\x7d"]))
    {us : List Token} (htail : Detached tail) (hus : Cuts tail us) :
    Cuts (cs ++ tail) (ts ++ us) := by
  induction n generalizing cs ts m with
  | zero => contradiction
  | succ n ih =>
      obtain ⟨m, rfl⟩ : ∃ k, m = k + 1 := by
        cases m with
        | zero => contradiction
        | succ m => exact ⟨m, rfl⟩
      rw [tokensWithin] at h hclosed
      rcases (skips cs).1 with ⟨hsome, happend⟩ | ⟨hnone, happend⟩ | happend
      · obtain ⟨c, more, hskip⟩ := List.exists_cons_of_ne_nil hsome
        rw [hskip] at h
        rw [happend, hskip, List.cons_append] at hclosed
        obtain ⟨⟨t, rest⟩, ht, h⟩ := Option.bind_eq_some_iff.mp h
        obtain ⟨vs, hvs, h⟩ := Option.bind_eq_some_iff.mp h
        obtain rfl := Option.some.inj h
        have hgap := takeToken_gap (.inl rfl) ['\x7d'] ht
        rw [List.cons_append] at hgap
        simp only [hgap, Option.bind_eq_bind, Option.bind_some, Option.bind_eq_some_iff] at hclosed
        obtain ⟨ws, hws, hclosed⟩ := hclosed
        obtain ⟨-, rfl⟩ := List.cons.inj (Option.some.inj hclosed)
        have hall : takeToken (c :: (more ++ tail)) = some (t, rest ++ tail) := by
          rcases htail with - | ⟨hc, after⟩
          · simpa using ht
          · exact takeToken_gap hc after ht
        have hbegins := begins_of_takeToken ht
        have hlength := (taken_of_takeToken ht).suffix.length_le
        have hbehind : Cuts (c :: (more ++ tail)) (t :: (vs ++ us)) :=
          cuts_token hbegins (by simpa using hlength) hall (ih hvs hws)
        refine cuts_skip ?_ ?_ hbehind
        · rw [happend, hskip, List.cons_append, skipBlank_cons hbegins]
        · have hle := (skipBlank_suffix cs).length_le
          rw [hskip] at hle
          simp only [List.length_cons, List.length_append] at hle ⊢
          omega
      · rw [hnone] at h
        obtain rfl := Option.some.inj h
        exact cuts_skip (happend tail) (by simp) hus
      · rw [happend] at hclosed
        have hempty : ([] : List Token) = ts ++ [.sign "\x7d"] := Option.some.inj hclosed
        simp at hempty

/-- A text without escapes and tabs gives its tokens anywhere, if a closing brace behind it is a token
of its own. -/
theorem spells_of_cut (hescape : '\\' ∉ cs) (htab : '\t' ∉ cs) (h : cut cs = some ts)
    (hclosed : cut (cs ++ [' ', '\x7d']) = some (ts ++ [.sign "\x7d"])) : Spells cs ts := by
  refine ⟨cs, expanded_of_no_escape hescape, fun column rest us hrest hus => ?_⟩
  rw [expandTabs_of_no_tab htab]
  exact cuts_append h hclosed hrest hus

end EntityMapping.Sparql.Lexer
