import EntityMapping.Proofs.Number.Reading
import EntityMapping.Proofs.Sparql.Quoting

/-!
Numbers that are not finite are respelled between their quotes.

The words for such numbers are replaced in the quoted text.  Only what is read as a number is
treated so, and what is read as a number holds neither quotes nor backslashes; so replacing a word
in the quoted text is the same as quoting the text with the word replaced.
-/

namespace EntityMapping

/-- Characters that a quoted text has to escape wherever they stand. -/
def isQuoting (c : Char) : Bool :=
  c == '"' || c == '\\'

/-- A text without quotes and backslashes. -/
def Unquoted (cs : List Char) : Prop :=
  ∀ c ∈ cs, isQuoting c = false

theorem unquoted_cons {c : Char} {cs : List Char} :
    Unquoted (c :: cs) ↔ isQuoting c = false ∧ Unquoted cs :=
  List.forall_mem_cons

/-! ### The texts of numbers -/

theorem eq_of_isQuoting {c : Char} (h : isQuoting c = true) : c = '"' ∨ c = '\\' := by
  simpa [isQuoting] using h

/-- What is read as a number holds no quote and no backslash. -/
theorem unquoted_of_read {s : String} {x : Binary64} (h : Binary64.read s = some x) :
    Unquoted s.toList := by
  intro c hc
  refine Bool.eq_false_iff.mpr fun hquoting => ?_
  rcases eq_of_isQuoting hquoting with rfl | rfl
  · exact Binary64.not_mem_of_read h (by decide +kernel) (by decide) hc
  · exact Binary64.not_mem_of_read h (by decide +kernel) (by decide) hc

namespace Literal

open Sparql Sparql.Lexer

/-! ### Replacing a word -/

section Replacing

variable {pattern replacement : List Char}

/-- The text with every occurrence of the pattern replaced. -/
def replaced (pattern replacement cs : List Char) : List Char :=
  replaceAll pattern replacement cs.length cs

theorem replaceAll_found (hne : pattern ≠ []) (fuel : Nat) (rest : List Char) :
    replaceAll pattern replacement (fuel + 1) (pattern ++ rest) =
      replacement ++ replaceAll pattern replacement fuel rest := by
  rcases pattern with - | ⟨c, pattern⟩
  · contradiction
  · rw [List.cons_append, replaceAll, if_pos]
    · simp
    · simp [List.isPrefixOf_iff_prefix]

theorem replaceAll_cons {c : Char} {rest : List Char} (h : ¬pattern <+: c :: rest) (fuel : Nat) :
    replaceAll pattern replacement (fuel + 1) (c :: rest) =
      c :: replaceAll pattern replacement fuel rest := by
  rw [replaceAll, if_neg fun hprefix => h (List.isPrefixOf_iff_prefix.mp hprefix)]

/-- The length of a text is enough fuel, and more changes nothing. -/
theorem replaceAll_length (hne : pattern ≠ []) {n m : Nat} {cs : List Char}
    (hn : cs.length ≤ n) (hm : cs.length ≤ m) :
    replaceAll pattern replacement n cs = replaceAll pattern replacement m cs := by
  induction n generalizing m cs with
  | zero =>
      obtain rfl := List.eq_nil_of_length_eq_zero (Nat.le_zero.1 hn)
      cases m <;> rfl
  | succ n ih =>
      rcases cs with - | ⟨c, rest⟩
      · cases m <;> rfl
      · obtain ⟨m, rfl⟩ := Nat.exists_eq_succ_of_ne_zero
          (Nat.ne_of_gt (Nat.lt_of_lt_of_le (Nat.succ_pos _) hm))
        by_cases hprefix : pattern <+: c :: rest
        · obtain ⟨behind, hbehind⟩ := hprefix
          have hlength := congrArg List.length hbehind
          have hpos := List.length_pos_of_ne_nil hne
          simp only [List.length_append, List.length_cons] at hlength hn hm
          rw [← hbehind, replaceAll_found hne, replaceAll_found hne,
            ih (m := m) (by omega) (by omega)]
        · rw [replaceAll_cons hprefix, replaceAll_cons hprefix,
            ih (m := m) (Nat.le_of_succ_le_succ hn) (Nat.le_of_succ_le_succ hm)]

theorem replaced_found (hne : pattern ≠ []) (rest : List Char) :
    replaced pattern replacement (pattern ++ rest) =
      replacement ++ replaced pattern replacement rest := by
  have hpos := List.length_pos_of_ne_nil hne
  rw [replaced, replaceAll_length hne (m := rest.length + pattern.length) (Nat.le_refl _)
    (by simp [Nat.add_comm])]
  obtain ⟨n, hn⟩ := Nat.exists_eq_succ_of_ne_zero (Nat.ne_of_gt hpos)
  rw [hn, Nat.add_succ, replaceAll_found hne, replaced,
    replaceAll_length hne (Nat.le_add_right _ _) (Nat.le_refl _)]

theorem replaced_cons {c : Char} {rest : List Char} (h : ¬pattern <+: c :: rest) :
    replaced pattern replacement (c :: rest) = c :: replaced pattern replacement rest :=
  replaceAll_cons h _

/-- A word that quoting leaves as it is, and that no escape runs into. -/
def IsSpelling (word : List Char) : Prop :=
  word ≠ [] ∧ ∀ c ∈ word, c ∉ ['"', '\\', '\r', 'r', '\n']

instance (word : List Char) : Decidable (IsSpelling word) :=
  decidable_of_iff
    (word ≠ [] ∧ (word.all fun c => !(['"', '\\', '\r', 'r', '\n'].contains c)) = true)
    (by simp [IsSpelling])

theorem IsSpelling.not_opening (h : IsSpelling pattern) {c : Char}
    (hc : c ∈ ['"', '\\', '\r', 'r', '\n']) (rest : List Char) : ¬pattern <+: c :: rest := by
  rintro ⟨behind, hbehind⟩
  obtain ⟨hne, hall⟩ := h
  rcases pattern with - | ⟨d, pattern⟩
  · contradiction
  · obtain rfl := (List.cons.inj hbehind).1
    exact hall d List.mem_cons_self hc

theorem replaced_replicate (h : IsSpelling pattern) (k : Nat) (cs : List Char) :
    replaced pattern replacement (List.replicate k '"' ++ cs) =
      List.replicate k '"' ++ replaced pattern replacement cs := by
  induction k with
  | zero => rfl
  | succ k ih =>
      rw [List.replicate_succ, List.cons_append, replaced_cons (h.not_opening (by decide) _), ih]
      rfl

theorem escapeReturns_cons {c : Char} (hc : c ≠ '\r') (cs : List Char) :
    escapeReturns (c :: cs) = c :: escapeReturns cs := by
  simp [escapeReturns, hc]

theorem escapeReturns_spelling {word : List Char} (h : IsSpelling word) (cs : List Char) :
    escapeReturns (word ++ cs) = word ++ escapeReturns cs := by
  have hword : ∀ c ∈ word, c ≠ '\r' := fun c hc hreturn => h.2 c hc (by simp [hreturn])
  clear h
  induction word with
  | nil => rfl
  | cons c word ih =>
      rw [List.cons_append, escapeReturns_cons (hword c List.mem_cons_self),
        ih fun d hd => hword d (List.mem_cons_of_mem c hd)]
      rfl

theorem prefix_of_escapeReturns {word cs : List Char} {k : Nat}
    (hword : ∀ c ∈ word, c ∉ ['"', '\\', '\r', 'r', '\n'])
    (h : word <+: escapeReturns cs ++ List.replicate k '"') : word <+: cs := by
  induction word generalizing cs with
  | nil => exact List.nil_prefix
  | cons d word ih =>
      obtain ⟨hd, hrest⟩ := List.forall_mem_cons.mp hword
      rcases cs with - | ⟨c, cs⟩
      · have hmem : d ∈ List.replicate k '"' := h.subset List.mem_cons_self
        exact absurd (by simp [List.eq_of_mem_replicate hmem]) hd
      · by_cases hc : c = '\r'
        · subst hc
          obtain ⟨rfl, -⟩ := List.cons_prefix_cons.mp h
          exact absurd (by simp) hd
        · rw [escapeReturns_cons hc, List.cons_append, List.cons_prefix_cons] at h
          exact List.cons_prefix_cons.mpr ⟨h.1, ih hrest h.2⟩

/-- Induction along the occurrences of a pattern. -/
theorem replaced_induction (hne : pattern ≠ []) {P : List Char → Prop} (nil : P [])
    (found : ∀ rest, P rest → P (pattern ++ rest))
    (other : ∀ c rest, ¬pattern <+: c :: rest → P rest → P (c :: rest)) (cs : List Char) :
    P cs := by
  induction hlength : cs.length using Nat.strong_induction_on generalizing cs with
  | h n ih =>
      rcases cs with - | ⟨c, cs⟩
      · exact nil
      · by_cases hprefix : pattern <+: c :: cs
        · obtain ⟨rest, hrest⟩ := hprefix
          have hpos := List.length_pos_of_ne_nil hne
          rw [← hrest] at hlength ⊢
          rw [List.length_append] at hlength
          exact found rest (ih rest.length (by omega) rest rfl)
        · rw [List.length_cons] at hlength
          exact other c cs hprefix (ih cs.length (by omega) cs rfl)

/-- Respelling a word inside a quoted text is respelling it in the text. -/
theorem replaced_escapeReturns (hp : IsSpelling pattern) (hr : IsSpelling replacement) (k : Nat)
    (cs : List Char) :
    replaced pattern replacement (escapeReturns cs ++ List.replicate k '"') =
      escapeReturns (replaced pattern replacement cs) ++ List.replicate k '"' := by
  -- No occurrence begins in an escape or in the closing quotes, nor reaches into them.
  induction cs using replaced_induction hp.1 with
  | nil =>
      have hquotes : replaced pattern replacement (List.replicate k '"' ++ []) = _ :=
        replaced_replicate hp k []
      rw [List.append_nil] at hquotes
      exact hquotes.trans (List.append_nil _)
  | found rest ih =>
      rw [escapeReturns_spelling hp, List.append_assoc, replaced_found hp.1,
        replaced_found hp.1, escapeReturns_spelling hr, ih, List.append_assoc]
  | other c rest hprefix ih =>
      rw [replaced_cons hprefix]
      by_cases hc : c = '\r'
      · subst hc
        change replaced pattern replacement
          ('\\' :: 'r' :: (escapeReturns rest ++ List.replicate k '"')) = _
        rw [replaced_cons (hp.not_opening (by decide) _),
          replaced_cons (hp.not_opening (by decide) _), ih]
        rfl
      · have hnot : ¬pattern <+: c :: (escapeReturns rest ++ List.replicate k '"') := by
          intro hnot
          refine hprefix (prefix_of_escapeReturns (k := k) hp.2 ?_)
          rw [escapeReturns_cons hc]
          exact hnot
        rw [escapeReturns_cons hc, List.cons_append, replaced_cons hnot, ih,
          escapeReturns_cons hc]
        rfl

/-- A character of neither word is where it was. -/
theorem mem_replaced_iff (hp : pattern ≠ []) {c : Char} (hpattern : c ∉ pattern)
    (hreplacement : c ∉ replacement) (cs : List Char) :
    c ∈ replaced pattern replacement cs ↔ c ∈ cs := by
  induction cs using replaced_induction hp with
  | nil => exact Iff.rfl
  | found rest ih =>
      rw [replaced_found hp, List.mem_append, List.mem_append, ih]
      simp [hpattern, hreplacement]
  | other d rest hprefix ih => rw [replaced_cons hprefix, List.mem_cons, List.mem_cons, ih]

/-- What stands around a quoted text. -/
def quotesAround (cs : List Char) : List Char :=
  List.replicate (if '\n' ∈ cs then 3 else 1) '"'

theorem escapeLine_unquoted {cs : List Char} (h : Unquoted cs) :
    escapeLine cs = escapeReturns cs := by
  induction cs with
  | nil => rfl
  | cons c cs ih =>
      obtain ⟨hc, hcs⟩ := unquoted_cons.mp h
      by_cases hreturn : c = '\r'
      · subst hreturn
        change '\\' :: 'r' :: escapeLine cs = '\\' :: 'r' :: escapeReturns cs
        rw [ih hcs]
      · have hchar : escapeChar c = [c] :=
          escapeChar.eq_4 c (fun h => by simp [h, isQuoting] at hc)
            (fun h => by simp [h, isQuoting] at hc) hreturn
        rw [escapeReturns_cons hreturn, ← ih hcs, escapeLine, List.flatMap_cons, hchar]
        rfl

theorem tripled_unquoted {cs : List Char} (h : Unquoted cs) : tripled cs = escapeReturns cs := by
  induction cs using tripled.induct with
  | case1 rest => exact absurd (unquoted_cons.mp h).1 (by decide)
  | case2 => exact absurd (unquoted_cons.mp h).1 (by decide)
  | case3 rest => exact absurd (unquoted_cons.mp h).1 (by decide)
  | case4 rest ih =>
      rw [tripled, ih (unquoted_cons.mp h).2]
      rfl
  | case5 c rest htriple hlast hescape hreturn ih =>
      rw [tripled.eq_5 c rest htriple hlast hescape hreturn, escapeReturns_cons hreturn,
        ih (unquoted_cons.mp h).2]
  | case6 => rfl

theorem Unquoted.not_suffix {cs : List Char} (h : Unquoted cs) : ¬['\\', '"'] <:+ cs := by
  intro hsuffix
  have hquote := h '"' (hsuffix.subset (by simp))
  exact absurd hquote (by decide)

theorem quotedText_unquoted {cs : List Char} (h : Unquoted cs) :
    quotedText cs = quotesAround cs ++ (escapeReturns cs ++ quotesAround cs) := by
  rw [quotedText, quotesAround]
  by_cases hlines : '\n' ∈ cs
  · rw [if_pos (List.contains_iff_mem.mpr hlines), if_pos hlines,
      escapeLines_eq (Unquoted.not_suffix h), tripled_unquoted h, List.append_assoc]
    rfl
  · rw [if_neg fun hmem => hlines (List.contains_iff_mem.mp hmem), if_neg hlines,
      escapeLine_unquoted h]
    rfl

theorem unquoted_replaced (hp : IsSpelling pattern) (hr : IsSpelling replacement)
    {cs : List Char} (h : Unquoted cs) : Unquoted (replaced pattern replacement cs) := by
  intro c hc
  refine Bool.eq_false_iff.mpr fun hquoting => ?_
  have hmem : c ∈ ['"', '\\', '\r', 'r', '\n'] := by
    rcases eq_of_isQuoting hquoting with rfl | rfl <;> simp
  have hthere := (mem_replaced_iff hp.1 (fun hpattern => hp.2 c hpattern hmem)
    (fun hreplacement => hr.2 c hreplacement hmem) cs).mp hc
  exact Bool.noConfusion (hquoting.symm.trans (h c hthere))

theorem replaced_quotedText (hp : IsSpelling pattern) (hr : IsSpelling replacement)
    {cs : List Char} (h : Unquoted cs) :
    replaced pattern replacement (quotedText cs) =
      quotedText (replaced pattern replacement cs) := by
  have hline : '\n' ∈ replaced pattern replacement cs ↔ '\n' ∈ cs :=
    mem_replaced_iff hp.1 (fun hpattern => hp.2 _ hpattern (by simp))
      (fun hreplacement => hr.2 _ hreplacement (by simp)) cs
  have hquotes : quotesAround (replaced pattern replacement cs) = quotesAround cs := by
    rw [quotesAround, quotesAround, if_congr hline rfl rfl]
  rw [quotedText_unquoted h, quotedText_unquoted (unquoted_replaced hp hr h), hquotes,
    quotesAround, replaced_replicate hp, replaced_escapeReturns hp hr]

end Replacing

/-! ### Literals -/

/-- The text that a written literal shows: its own, with numbers that are not finite respelled. -/
def shown (l : Literal) : List Char :=
  l.spellNonFinite l.lexical.toList

/-- Only texts without quotes are respelled. -/
theorem spellNonFinite_cases (l : Literal) :
    (∀ cs, l.spellNonFinite cs = cs) ∨
      Unquoted l.lexical.toList ∧
        ((∀ cs, l.spellNonFinite cs = replaced "nan".toList "NaN".toList cs) ∨
        ∀ cs, l.spellNonFinite cs =
          replaced "Infinity".toList "INF".toList (replaced "inf".toList "INF".toList cs)) := by
  have hread : ∀ {x}, (if ((Xsd.decimal :: Xsd.floatFamily).any fun d => l.datatype == some d) then
      Binary64.read l.lexical else none) = some x → Unquoted l.lexical.toList := by
    intro x hx
    split at hx
    · exact unquoted_of_read hx
    · contradiction
  unfold spellNonFinite
  simp only
  split
  · next hx => exact Or.inr ⟨hread hx, Or.inr fun cs => rfl⟩
  · next hx => exact Or.inr ⟨hread hx, Or.inl fun cs => rfl⟩
  · exact Or.inl fun cs => rfl

theorem isSpelling_words : IsSpelling "nan".toList ∧ IsSpelling "NaN".toList ∧
    IsSpelling "inf".toList ∧ IsSpelling "Infinity".toList ∧ IsSpelling "INF".toList := by
  decide

/-- Respelling happens between the quotes. -/
theorem spellNonFinite_quotedText (l : Literal) :
    l.spellNonFinite (quotedText l.lexical.toList) = quotedText l.shown := by
  obtain ⟨hnan, hNaN, hinf, hinfinity, hINF⟩ := isSpelling_words
  rw [shown]
  rcases spellNonFinite_cases l with hsame | ⟨hunquoted, hspell | hspell⟩
  · rw [hsame, hsame]
  · rw [hspell, hspell, replaced_quotedText hnan hNaN hunquoted]
  · rw [hspell, hspell, replaced_quotedText hinf hINF hunquoted,
      replaced_quotedText hinfinity hINF (unquoted_replaced hinf hINF hunquoted)]

theorem shown_eq_or_unquoted (l : Literal) : l.shown = l.lexical.toList ∨ Unquoted l.shown := by
  obtain ⟨hnan, hNaN, hinf, hinfinity, hINF⟩ := isSpelling_words
  rw [shown]
  rcases spellNonFinite_cases l with hsame | ⟨hunquoted, hspell | hspell⟩
  · exact Or.inl (hsame _)
  · rw [hspell]
    exact Or.inr (unquoted_replaced hnan hNaN hunquoted)
  · rw [hspell]
    exact Or.inr (unquoted_replaced hinfinity hINF (unquoted_replaced hinf hINF hunquoted))

end Literal

end EntityMapping
