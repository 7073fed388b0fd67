import EntityMapping.Sparql.Lexer
import Mathlib.Data.String.Basic

/-!
How a request is cut into tokens where blanks stand between its words.

Nothing that the lexer does looks across a blank: not the escapes of code points, not the longest
piece of a token.  So the tokens of words with blanks between them are those of the words, one
after the other.  Only tabs depend on what stands in front, through the column.
-/

namespace EntityMapping.Sparql.Lexer

/-- The blanks that stand between the words of a request: spaces and line feeds, but no tabs. -/
def IsGap (c : Char) : Prop :=
  c = ' ' ∨ c = '\n'

/-- A text that does not run on from what stands in front of it. -/
inductive Detached : List Char → Prop where
  | nothing : Detached []
  | gap {c : Char} (hc : IsGap c) (rest : List Char) : Detached (c :: rest)

/-- A text that is cut into the given tokens, with any fuel above their number. -/
def Cuts (cs : List Char) (ts : List Token) : Prop :=
  ts.length ≤ cs.length ∧ ∀ fuel, ts.length < fuel → tokensWithin fuel cs = some ts

/-- The tokens of a text as it stands, code point escapes and tabs included. -/
def cut (cs : List Char) : Option (List Token) :=
  tokensWithin (cs.length + 1) cs

theorem Cuts.cut_eq {cs : List Char} {ts : List Token} (h : Cuts cs ts) : cut cs = some ts :=
  h.2 _ (Nat.lt_succ_of_le h.1)

theorem cuts_nil : Cuts [] [] := by
  refine ⟨Nat.le_refl 0, fun fuel hfuel => ?_⟩
  obtain ⟨n, rfl⟩ := Nat.exists_eq_succ_of_ne_zero (Nat.ne_of_gt hfuel)
  rfl

theorem skipBlank_space {c : Char} (hc : isSpace c = true) (rest : List Char) :
    skipBlank (c :: rest) = skipBlank rest := by
  have hcomment : c ≠ '#' := by
    rintro rfl
    exact absurd hc (by decide)
  rw [skipBlank.eq_3 _ _ (by simpa using hcomment), if_pos hc]

theorem skipBlank_comment {body rest : List Char} (hbody : '\n' ∉ body)
    (hrest : rest = [] ∨ rest.head? = some '\n') :
    skipBlank ('#' :: body ++ rest) = skipBlank rest := by
  have hskip : skipBlank.skipComment (body ++ rest) = skipBlank rest := by
    induction body with
    | nil =>
        rcases hrest with rfl | hrest
        · rfl
        · obtain ⟨more, rfl⟩ := List.head?_eq_some_iff.mp hrest
          rfl
    | cons c body ih =>
        obtain ⟨hc, hmore⟩ : '\n' ≠ c ∧ '\n' ∉ body := by simpa using hbody
        rw [List.cons_append, skipBlank.skipComment.eq_3 _ _ (by simpa using Ne.symm hc), ih hmore]
  exact hskip

theorem tokensWithin_skip {cs ds : List Char} (h : skipBlank cs = skipBlank ds) (fuel : Nat) :
    tokensWithin fuel cs = tokensWithin fuel ds := by
  cases fuel with
  | zero => rfl
  | succ fuel => rw [tokensWithin, tokensWithin, h]

/-- What is skipped in front changes nothing. -/
theorem cuts_skip {cs ds : List Char} {ts : List Token} (hskip : skipBlank cs = skipBlank ds)
    (hlength : ds.length ≤ cs.length) (h : Cuts ds ts) : Cuts cs ts :=
  ⟨Nat.le_trans h.1 hlength, fun fuel hfuel =>
    (tokensWithin_skip hskip fuel).trans (h.2 fuel hfuel)⟩

/-- A gap in front changes nothing. -/
theorem cuts_gap {c : Char} (hc : IsGap c) {cs : List Char} {ts : List Token} (h : Cuts cs ts) :
    Cuts (c :: cs) ts := by
  refine cuts_skip ?_ (Nat.le_succ _) h
  rcases hc with rfl | rfl <;> rfl

/-- A character that begins a token stands in front of no blank and of no comment. -/
def Begins (c : Char) : Prop :=
  isSpace c = false ∧ c ≠ '#'

theorem skipBlank_cons {c : Char} (hc : Begins c) (rest : List Char) :
    skipBlank (c :: rest) = c :: rest := by
  rw [skipBlank.eq_3 _ _ (by simpa using hc.2), if_neg (by simp [hc.1])]

/-- One token in front. -/
theorem cuts_token {c : Char} {cs rest : List Char} {t : Token} {ts : List Token}
    (hc : Begins c) (hlength : rest.length ≤ cs.length)
    (ht : takeToken (c :: cs) = some (t, rest)) (h : Cuts rest ts) :
    Cuts (c :: cs) (t :: ts) := by
  refine ⟨Nat.succ_le_succ (Nat.le_trans h.1 hlength), fun fuel hfuel => ?_⟩
  obtain ⟨n, rfl⟩ := Nat.exists_eq_succ_of_ne_zero (Nat.ne_of_gt (Nat.zero_lt_of_lt hfuel))
  have hrest := h.2 n (Nat.lt_of_succ_lt_succ hfuel)
  simp [tokensWithin, skipBlank_cons hc, ht, hrest]

/-! ### Escaped code points -/

/-- The text with its code point escapes replaced. -/
def expanded (cs : List Char) : Option (List Char) :=
  expandCodePoints cs.length cs

/-- A character that is no escape's beginning stays. -/
theorem expandCodePoints_plain {c : Char} {rest : List Char} (h : c ≠ '\\' ∨ rest = [])
    (fuel : Nat) :
    expandCodePoints (fuel + 1) (c :: rest) = (expandCodePoints fuel rest).map (c :: ·) := by
  rcases h with h | rfl
  · rw [expandCodePoints]
    rintro u tail hc
    exact absurd hc h
  · rw [expandCodePoints]
    rintro u tail - ⟨⟩

/-- How many characters the digits of an escape take; none where there is no escape. -/
def escapeWidth (u : Char) (rest : List Char) : Nat :=
  let digits := (rest.take 8).takeWhile isHex
  if (u == 'u' || u == 'U') && 4 ≤ digits.length then (if digits.length == 8 then 8 else 4) else 0

/-- What the digits of an escape stand for, in front of what is behind them. -/
def withCodePoint (n : Nat) (behind : Option (List Char)) : Option (List Char) :=
  if n.isValidChar then behind.map (Char.ofNat n :: ·) else none

theorem withCodePoint_bind (n : Nat) (c : Char) (a b : Option (List Char)) :
    withCodePoint n (a.bind fun x => b.map fun y => x ++ c :: y) =
      (withCodePoint n a).bind fun x => b.map fun y => x ++ c :: y := by
  by_cases h : n.isValidChar
  · rw [withCodePoint, withCodePoint, if_pos h, if_pos h]
    cases a <;> cases b <;> rfl
  · rw [withCodePoint, withCodePoint, if_neg h, if_neg h]
    rfl

theorem take_digits {rest digits : List Char} (hdigits : (rest.take 8).takeWhile isHex = digits)
    {width : Nat} (hwidth : width ≤ digits.length) : digits.take width = rest.take width := by
  have hfirst : digits <+: rest :=
    hdigits ▸ (List.takeWhile_prefix _).trans (List.take_prefix 8 rest)
  rw [List.prefix_iff_eq_take.mp hfirst, List.take_take, Nat.min_eq_left hwidth]

theorem expandCodePoints_escape (fuel : Nat) (u : Char) (rest : List Char) :
    expandCodePoints (fuel + 1) ('\\' :: u :: rest) =
      if escapeWidth u rest = 0 then (expandCodePoints fuel (u :: rest)).map ('\\' :: ·)
      else withCodePoint (hexNumber (rest.take (escapeWidth u rest)))
        (expandCodePoints fuel (rest.drop (escapeWidth u rest))) := by
  rw [expandCodePoints]
  change (let digits := (rest.take 8).takeWhile isHex
    let width := if digits.length == 8 then 8 else 4
    if (u == 'u' || u == 'U') && 4 ≤ digits.length then
      withCodePoint (hexNumber (digits.take width)) (expandCodePoints fuel (rest.drop width))
    else (expandCodePoints fuel (u :: rest)).map ('\\' :: ·)) = _
  obtain ⟨digits, hdigits⟩ : ∃ digits, (rest.take 8).takeWhile isHex = digits := ⟨_, rfl⟩
  simp only [escapeWidth, hdigits]
  by_cases hescape : ((u == 'u' || u == 'U') && decide (4 ≤ digits.length)) = true
  · have hlength : 4 ≤ digits.length := by
      simp only [Bool.and_eq_true, decide_eq_true_eq] at hescape
      exact hescape.2
    simp only [if_pos hescape]
    by_cases height : digits.length = 8
    · simp [height, take_digits hdigits (Nat.le_of_eq height.symm)]
    · simp [height, take_digits hdigits hlength]
  · simp only [if_neg hescape, if_true]

theorem takeWhile_take_append {p : Char → Bool} {c : Char} (hc : p c = false) (n : Nat)
    (a b : List Char) :
    ((a ++ c :: b).take n).takeWhile p = (a.take n).takeWhile p := by
  induction a generalizing n with
  | nil => cases n <;> simp [hc]
  | cons d a ih =>
      cases n with
      | zero => rfl
      | succ n => simp [List.takeWhile_cons, ih]

theorem escapeWidth_le (u : Char) (rest : List Char) : escapeWidth u rest ≤ rest.length := by
  have hlength : ((rest.take 8).takeWhile isHex).length ≤ rest.length :=
    Nat.le_trans (List.takeWhile_prefix _).length_le (List.length_take_le' 8 rest)
  simp only [escapeWidth]
  split
  · next h =>
      simp only [Bool.and_eq_true, decide_eq_true_eq] at h
      split
      · next height =>
          have := beq_iff_eq.mp height
          omega
      · omega
  · exact Nat.zero_le _

theorem escapeWidth_append {c : Char} (hc : isHex c = false) (u : Char) (a b : List Char) :
    escapeWidth u (a ++ c :: b) = escapeWidth u a := by
  simp only [escapeWidth, takeWhile_take_append hc]

theorem expandCodePoints_length {n m : Nat} {cs : List Char} (hn : cs.length ≤ n)
    (hm : cs.length ≤ m) : expandCodePoints n cs = expandCodePoints m cs := by
  induction n generalizing m cs with
  | zero =>
      obtain rfl := List.eq_nil_of_length_eq_zero (Nat.le_zero.1 hn)
      cases m <;> rfl
  | succ n ih =>
      obtain _ | m := m
      · obtain rfl := List.eq_nil_of_length_eq_zero (Nat.le_zero.1 hm)
        rfl
      · rcases cs with - | ⟨c, - | ⟨u, rest⟩⟩
        · rfl
        · rw [expandCodePoints_plain (Or.inr rfl), expandCodePoints_plain (Or.inr rfl),
            ih (Nat.zero_le _) (Nat.zero_le _)]
        · simp only [List.length_cons] at hn hm
          by_cases hc : c = '\\'
          · subst hc
            rw [expandCodePoints_escape, expandCodePoints_escape,
              ih (m := m) (show (u :: rest).length ≤ n by simp; omega) (by simp; omega),
              ih (m := m) (show (rest.drop (escapeWidth u rest)).length ≤ n by simp; omega)
                (by simp; omega)]
          · rw [expandCodePoints_plain (Or.inl hc), expandCodePoints_plain (Or.inl hc),
              ih (m := m) (by simp; omega) (by simp; omega)]

theorem IsGap.isHex {c : Char} (hc : IsGap c) : isHex c = false := by
  rcases hc with rfl | rfl <;> rfl

theorem IsGap.ne {c d : Char} (hc : IsGap c) (hspace : d ≠ ' ') (hline : d ≠ '\n') : c ≠ d := by
  rcases hc with rfl | rfl
  · exact hspace.symm
  · exact hline.symm

/-- Code points are replaced on either side of a gap as if the other side were not there. -/
theorem expandCodePoints_append {c : Char} (hc : IsGap c) {n m k : Nat} {a b : List Char}
    (hm : a.length ≤ m) (hk : b.length ≤ k) (hn : a.length + b.length < n) :
    expandCodePoints n (a ++ c :: b) =
      (expandCodePoints m a).bind fun x => (expandCodePoints k b).map fun y => x ++ c :: y := by
  have hmark : c ≠ '\\' := hc.ne (by decide) (by decide)
  induction m generalizing n a with
  | zero =>
      obtain rfl := List.eq_nil_of_length_eq_zero (Nat.le_zero.1 hm)
      obtain ⟨n, rfl⟩ := Nat.exists_eq_succ_of_ne_zero (Nat.ne_of_gt (Nat.zero_lt_of_lt hn))
      rw [List.nil_append, expandCodePoints_plain (Or.inl hmark),
        expandCodePoints_length (m := k) (by simp at hn; omega) hk]
      rfl
  | succ m ih =>
      obtain ⟨n, rfl⟩ := Nat.exists_eq_succ_of_ne_zero (Nat.ne_of_gt (Nat.zero_lt_of_lt hn))
      rcases a with - | ⟨d, rest⟩
      · rw [List.nil_append, expandCodePoints_plain (Or.inl hmark),
          expandCodePoints_length (m := k) (by simp at hn; omega) hk]
        rfl
      · simp only [List.length_cons] at hm hn
        have hplain : d ≠ '\\' → expandCodePoints (n + 1) (d :: rest ++ c :: b) =
            (expandCodePoints (m + 1) (d :: rest)).bind fun x =>
              (expandCodePoints k b).map fun y => x ++ c :: y := by
          intro hd
          rw [List.cons_append, expandCodePoints_plain (Or.inl hd),
            expandCodePoints_plain (Or.inl hd), ih (by omega) (by omega)]
          cases expandCodePoints m rest <;> cases expandCodePoints k b <;> rfl
        by_cases hd : d = '\\'
        · subst hd
          rcases rest with - | ⟨u, tail⟩
          · have hwidth : escapeWidth c b = 0 := by
              rcases hc with rfl | rfl <;> rfl
            have hbehind := ih (n := n) (a := []) (by simp) (by simp at hn ⊢; omega)
            rw [List.cons_append, List.nil_append, expandCodePoints_escape, if_pos hwidth,
              expandCodePoints_plain (Or.inr rfl)]
            rw [List.nil_append] at hbehind
            rw [hbehind]
            cases expandCodePoints m [] <;> cases expandCodePoints k b <;> rfl
          · have hle := escapeWidth_le u tail
            rw [List.cons_append, List.cons_append, expandCodePoints_escape,
              expandCodePoints_escape, escapeWidth_append hc.isHex]
            split
            · rw [← List.cons_append, ih (by simp at hm ⊢; omega) (by simp at hn ⊢; omega)]
              cases expandCodePoints m (u :: tail) <;> cases expandCodePoints k b <;> rfl
            · simp only [List.length_cons] at hm hn
              rw [List.take_append_of_le_length hle, List.drop_append_of_le_length hle,
                ih (by simp; omega) (by simp; omega), withCodePoint_bind]
        · exact hplain hd

theorem expanded_append {c : Char} (hc : IsGap c) {a b x y : List Char}
    (ha : expanded a = some x) (hb : expanded b = some y) :
    expanded (a ++ c :: b) = some (x ++ c :: y) := by
  rw [expanded, expandCodePoints_append hc (Nat.le_refl _) (Nat.le_refl _) (by simp)]
  rw [expanded] at ha hb
  rw [ha, hb]
  rfl

/-- Where no backslash stands there is no escape. -/
theorem expanded_of_no_escape {cs : List Char} (h : '\\' ∉ cs) : expanded cs = some cs := by
  rw [expanded]
  induction cs with
  | nil => rfl
  | cons c rest ih =>
      simp only [List.mem_cons, not_or] at h
      rw [List.length_cons, expandCodePoints_plain (Or.inl (Ne.symm h.1)), ih h.2]
      rfl

/-! ### Tabs -/

/-- The column behind a text that begins at a column. -/
def columnBehind : (column : Nat) → List Char → Nat
  | column, [] => column
  | column, c :: rest =>
    if c == '\t' then columnBehind (column + (tabWidth - column % tabWidth)) rest
    else if c == '\n' || c == '\r' then columnBehind 0 rest
    else columnBehind (column + 1) rest

theorem expandTabs_append (column : Nat) (a b : List Char) :
    expandTabs column (a ++ b) = expandTabs column a ++ expandTabs (columnBehind column a) b := by
  induction a generalizing column with
  | nil => rfl
  | cons c rest ih =>
      rw [List.cons_append, expandTabs, expandTabs, columnBehind]
      split
      · simp only [ih, List.append_assoc]
      · split
        · rw [ih, List.cons_append]
        · rw [ih, List.cons_append]

theorem expandTabs_of_no_tab {cs : List Char} (h : '\t' ∉ cs) (column : Nat) :
    expandTabs column cs = cs := by
  induction cs generalizing column with
  | nil => rfl
  | cons c rest ih =>
      simp only [List.mem_cons, not_or] at h
      have hc : (c == '\t') = false := beq_false_of_ne (Ne.symm h.1)
      simp [expandTabs, hc, ih h.2]

/-- Where there is nothing to be replaced, the tokens of a request are those of its text. -/
theorem tokens_eq_cut {s : String} (htab : '\t' ∉ s.toList)
    (hescape : expanded s.toList = some s.toList) : tokens s = cut s.toList := by
  rw [expanded] at hescape
  simp only [tokens, hescape, Option.bind_eq_bind, Option.bind_some, expandTabs_of_no_tab htab]
  rfl

theorem expandTabs_gap {c : Char} (hc : IsGap c) (column : Nat) (rest : List Char) :
    ∃ next, expandTabs column (c :: rest) = c :: expandTabs next rest := by
  rcases hc with rfl | rfl
  · exact ⟨column + 1, rfl⟩
  · exact ⟨0, rfl⟩

/-! ### Words -/

/-- A text that gives the tokens wherever it stands with a gap behind it. -/
def Spells (word : List Char) (ts : List Token) : Prop :=
  ∃ cs, expanded word = some cs ∧ ∀ column rest us, Detached rest → Cuts rest us →
    Cuts (expandTabs column cs ++ rest) (ts ++ us)

/-- Words with a gap between them give their tokens in order. -/
theorem Spells.append {a b : List Char} {ts us : List Token} (ha : Spells a ts)
    (hb : Spells b us) {c : Char} (hc : IsGap c) : Spells (a ++ c :: b) (ts ++ us) := by
  obtain ⟨x, hx, hfirst⟩ := ha
  obtain ⟨y, hy, hsecond⟩ := hb
  refine ⟨x ++ c :: y, expanded_append hc hx hy, fun column rest vs hrest hvs => ?_⟩
  obtain ⟨next, hnext⟩ := expandTabs_gap hc (columnBehind column x) y
  have hbehind := hsecond next rest vs hrest hvs
  rw [expandTabs_append, hnext, List.append_assoc, List.cons_append, List.append_assoc]
  exact hfirst column _ _ (.gap hc _) (cuts_gap hc hbehind)

theorem tokens_eq_some {word : List Char} {ts : List Token} (h : Spells word ts) :
    tokens (String.ofList word) = some ts := by
  obtain ⟨cs, hcs, hcut⟩ := h
  have hall := hcut 0 [] [] .nothing cuts_nil
  rw [List.append_nil, List.append_nil] at hall
  rw [expanded] at hcs
  simp only [tokens, String.toList_ofList, hcs, Option.bind_eq_bind, Option.bind_some]
  exact hall.2 _ (Nat.lt_succ_of_le hall.1)

/-- A word without escapes and tabs that is one token. -/
theorem spells_token {word : List Char} {t : Token} (hescape : '\\' ∉ word) (htab : '\t' ∉ word)
    {c : Char} (hhead : word.head? = some c) (hc : Begins c)
    (ht : ∀ rest, Detached rest → takeToken (word ++ rest) = some (t, rest)) :
    Spells word [t] := by
  refine ⟨word, expanded_of_no_escape hescape, fun column rest us hrest hus => ?_⟩
  rw [expandTabs_of_no_tab htab]
  obtain ⟨tail, rfl⟩ := List.head?_eq_some_iff.mp hhead
  refine cuts_token hc ?_ (ht rest hrest) hus
  simp

end EntityMapping.Sparql.Lexer
