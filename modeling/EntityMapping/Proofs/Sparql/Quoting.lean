import EntityMapping.Term.N3
import EntityMapping.Proofs.Sparql.Tokens

/-!
Quoted texts are read as the texts that were quoted.

On one line every quote, backslash and carriage return is escaped.  On several lines quotes are
escaped in threes, from the left, and once more at the end, so that no bare quote joins the closing
ones.  The last one is missed when a backslash stands in front of it: a text of several lines that
ends in a backslash and a quote does not read back.
-/

namespace EntityMapping

namespace Literal

open Sparql Sparql.Lexer

/-! ### Texts on one line -/

theorem takeLine_escapeLine {cs tail : List Char} (hline : '\n' ∉ cs)
    (htail : tail.head? ≠ some '"') :
    takeLine '"' (escapeLine cs ++ '"' :: tail) = some (cs, tail) := by
  induction cs with
  | nil =>
      rw [escapeLine, List.flatMap_nil, List.nil_append, takeLine_plain (by decide),
        if_pos (beq_self_eq_true '"'), if_neg (by simpa using htail)]
  | cons c cs ih =>
      obtain ⟨hc, hcs⟩ : '\n' ≠ c ∧ '\n' ∉ cs := by simpa using hline
      have hrest := ih hcs
      rw [escapeLine] at hrest
      rw [escapeLine, List.flatMap_cons, List.append_assoc]
      by_cases hspecial : c = '\\' ∨ c = '"' ∨ c = '\r'
      · rcases hspecial with rfl | rfl | rfl
        · simp [escapeChar, takeLine, unescape, hrest]
        · simp [escapeChar, takeLine, unescape, hrest]
        · simp [escapeChar, takeLine, unescape, hrest]
      · simp only [not_or] at hspecial
        obtain ⟨hescape, hquote, hreturn⟩ := hspecial
        have hchar : escapeChar c = [c] := by
          rw [escapeChar.eq_4 c hescape hquote hreturn]
        rw [hchar, List.singleton_append, takeLine_plain hescape, if_neg (by simpa using hquote),
          if_neg (by simp [hescape, hreturn, Ne.symm hc]), hrest]
        rfl

/-! ### Texts on several lines -/

/-- The text between tripled quotes: quotes are escaped in threes, and at the end. -/
def tripled : List Char → List Char
  | '"' :: '"' :: '"' :: rest => '\\' :: '"' :: '\\' :: '"' :: '\\' :: '"' :: tripled rest
  | ['"'] => ['\\', '"']
  | '\\' :: rest => '\\' :: '\\' :: tripled rest
  | '\r' :: rest => '\\' :: 'r' :: tripled rest
  | c :: rest => c :: tripled rest
  | [] => []

theorem tripled_cons {c : Char} {rest : List Char} (hescape : c ≠ '\\') (hreturn : c ≠ '\r')
    (hquote : c = '"' → rest ≠ [] ∧ ∀ more, rest ≠ '"' :: '"' :: more) :
    tripled (c :: rest) = c :: tripled rest :=
  tripled.eq_5 c rest (fun more hc hrest => (hquote hc).2 more hrest)
    (fun hc hrest => (hquote hc).1 hrest) hescape hreturn

theorem tripled_eq_cons {c : Char} (hc : c ≠ '"') (rest : List Char) :
    ∃ d more, tripled (c :: rest) = d :: more ∧ d ≠ '"' := by
  by_cases hescape : c = '\\'
  · subst hescape
    exact ⟨'\\', _, rfl, by decide⟩
  · by_cases hreturn : c = '\r'
    · subst hreturn
      exact ⟨'\\', _, rfl, by decide⟩
    · exact ⟨c, _, tripled_cons hescape hreturn fun hquote => absurd hquote hc, hc⟩

/-- Where no three quotes begin, at most one of two quotes is left bare. -/
theorem not_isPrefixOf_tripled {rest : List Char} (hne : rest ≠ [])
    (hquotes : ∀ more, rest ≠ '"' :: '"' :: more) (tail : List Char) :
    ['"', '"'].isPrefixOf (tripled rest ++ tail) = false := by
  rcases rest with - | ⟨c, rest⟩
  · contradiction
  · by_cases hc : c = '"'
    · subst hc
      rcases rest with - | ⟨d, rest⟩
      · rfl
      · have hd : d ≠ '"' := fun hd => hquotes rest (by rw [hd])
        have hcons : tripled ('"' :: d :: rest) = '"' :: tripled (d :: rest) :=
          tripled_cons (by decide) (by decide) fun _ =>
            ⟨by simp, fun more hmore => hd (List.cons.inj hmore).1⟩
        obtain ⟨e, more, hmore, he⟩ := tripled_eq_cons hd rest
        rw [hcons, hmore]
        simp [List.isPrefixOf, Ne.symm he]
    · obtain ⟨e, more, hmore, he⟩ := tripled_eq_cons hc rest
      rw [hmore]
      simp [List.isPrefixOf, Ne.symm he]

theorem takeLines_tripled (cs tail : List Char) :
    takeLines '"' (tripled cs ++ '"' :: '"' :: '"' :: tail) = some (cs, tail) := by
  induction cs using tripled.induct with
  | case1 rest ih => simp [tripled, takeLines, unescape, ih]
  | case2 => simp [tripled, takeLines, unescape]
  | case3 rest ih => simp [tripled, takeLines, unescape, ih]
  | case4 rest ih => simp [tripled, takeLines, unescape, ih]
  | case5 c rest htriple hlast hescape hreturn ih =>
      have hopen : ¬(c == '"' && ['"', '"'].isPrefixOf
          (tripled rest ++ '"' :: '"' :: '"' :: tail)) = true := by
        rw [Bool.and_eq_true, beq_iff_eq]
        rintro ⟨hc, hprefix⟩
        rw [not_isPrefixOf_tripled (hlast hc) fun more hrest => htriple more hc hrest] at hprefix
        contradiction
      rw [tripled.eq_5 c rest htriple hlast hescape hreturn, List.cons_append,
        takeLines_plain hescape, if_neg hopen, ih]
      rfl
  | case6 => simp [tripled, takeLines]

theorem escapeLast_cons {c : Char} {ds : List Char} (hne : ds ≠ [])
    (hescape : c = '\\' → ds ≠ ['"']) : escapeLast (c :: ds) = c :: escapeLast ds := by
  unfold escapeLast
  rw [List.reverse_cons]
  rcases hreverse : ds.reverse with - | ⟨d, rest⟩
  · exact absurd (List.reverse_eq_nil_iff.mp hreverse) hne
  · have hds : ds = rest.reverse ++ [d] := by
      rw [← List.reverse_reverse ds, hreverse, List.reverse_cons]
    by_cases hd : d = '"'
    · subst hd
      rcases rest with - | ⟨e, rest⟩
      · have hc : c ≠ '\\' := fun hc => hescape hc hds
        simp [hc]
      · by_cases he : e = '\\'
        · subst he
          simp
        · simp [he]
    · simp [hd]

theorem escapeTriples_plain {c : Char} {ds : List Char}
    (h : ∀ more, c = '"' → ds ≠ '"' :: '"' :: more) :
    escapeTriples (c :: ds) = c :: escapeTriples ds := by
  rw [escapeTriples.eq_2 c ds fun more hc hds => h more hc hds]

theorem doubleBackslashes_plain {c : Char} (hc : c ≠ '\\') (cs : List Char) :
    doubleBackslashes (c :: cs) = c :: doubleBackslashes cs := by
  simp [doubleBackslashes, hc]

theorem doubleBackslashes_head {c : Char} (hc : c ≠ '\\') {cs more : List Char}
    (h : doubleBackslashes cs = c :: more) :
    ∃ rest, cs = c :: rest ∧ doubleBackslashes rest = more := by
  rcases cs with - | ⟨d, rest⟩
  · simp [doubleBackslashes] at h
  · by_cases hd : d = '\\'
    · subst hd
      exact absurd (List.cons.inj h).1.symm hc
    · rw [doubleBackslashes_plain hd] at h
      obtain ⟨rfl, rfl⟩ := List.cons.inj h
      exact ⟨rest, rfl, rfl⟩

/-- The text with its backslashes doubled and its threefold quotes escaped. -/
def escapeInner (cs : List Char) : List Char :=
  escapeTriples (doubleBackslashes cs)

theorem escapeInner_plain {c : Char} {cs : List Char} (hescape : c ≠ '\\')
    (htriple : ∀ rest, c = '"' → cs ≠ '"' :: '"' :: rest) :
    escapeInner (c :: cs) = c :: escapeInner cs := by
  rw [escapeInner, doubleBackslashes_plain hescape, escapeTriples_plain]
  · rfl
  · intro more hc hquotes
    obtain ⟨rest, rfl, hrest⟩ := doubleBackslashes_head (by decide) hquotes
    obtain ⟨rest, rfl, -⟩ := doubleBackslashes_head (by decide) hrest
    exact htriple rest hc rfl

theorem escapeInner_backslash (cs : List Char) :
    escapeInner ('\\' :: cs) = '\\' :: '\\' :: escapeInner cs := by
  rw [escapeInner]
  change escapeTriples ('\\' :: '\\' :: doubleBackslashes cs) = _
  rw [escapeTriples_plain (fun _ hc => absurd hc (by decide)),
    escapeTriples_plain (fun _ hc => absurd hc (by decide))]
  rfl

theorem escapeInner_triple (cs : List Char) :
    escapeInner ('"' :: '"' :: '"' :: cs) =
      '\\' :: '"' :: '\\' :: '"' :: '\\' :: '"' :: escapeInner cs := rfl

theorem escapeInner_ne_nil {cs : List Char} (hcs : cs ≠ []) : escapeInner cs ≠ [] := by
  induction cs using tripled.induct with
  | case1 rest => simp [escapeInner_triple]
  | case2 => decide
  | case3 rest => simp [escapeInner_backslash]
  | case4 rest =>
      rw [escapeInner_plain (by decide) fun _ hc => absurd hc (by decide)]
      simp
  | case5 c rest htriple hlast hescape hreturn =>
      rw [escapeInner_plain hescape fun more hc hrest => htriple more hc hrest]
      simp
  | case6 => contradiction

theorem eq_quote_of_escapeInner {cs : List Char} (h : escapeInner cs = ['"']) : cs = ['"'] := by
  induction cs using tripled.induct with
  | case1 rest => simp [escapeInner_triple] at h
  | case2 => rfl
  | case3 rest => simp [escapeInner_backslash] at h
  | case4 rest =>
      rw [escapeInner_plain (by decide) fun _ hc => absurd hc (by decide)] at h
      exact absurd (List.cons.inj h).1 (by decide)
  | case5 c rest htriple hlast hescape hreturn =>
      rw [escapeInner_plain hescape fun more hc hrest => htriple more hc hrest] at h
      obtain ⟨rfl, hrest⟩ := List.cons.inj h
      exact absurd hrest (escapeInner_ne_nil (hlast rfl))
  | case6 => contradiction

theorem escapeLast_inner {c : Char} {cs : List Char} (hne : cs ≠ [])
    (hescape : c = '\\' → cs ≠ ['"']) :
    escapeLast (c :: escapeInner cs) = c :: escapeLast (escapeInner cs) :=
  escapeLast_cons (escapeInner_ne_nil hne) fun hc hquote =>
    hescape hc (eq_quote_of_escapeInner hquote)

/-- Escaping a text of several lines from left to right, unless it ends in a backslash and a
quote. -/
theorem escapeLines_eq {cs : List Char} (h : ¬['\\', '"'] <:+ cs) :
    escapeLines cs = tripled cs := by
  change escapeReturns (escapeLast (escapeInner cs)) = tripled cs
  induction cs using tripled.induct with
  | case1 rest ih =>
      by_cases hrest : rest = []
      · rw [hrest]
        rfl
      · have hsuffix : rest <:+ '"' :: '"' :: '"' :: rest := ⟨['"', '"', '"'], rfl⟩
        have hinner := escapeInner_ne_nil hrest
        rw [escapeInner_triple, escapeLast_cons, escapeLast_cons, escapeLast_cons, escapeLast_cons,
          escapeLast_cons, escapeLast_inner hrest, tripled, ← ih fun hs => h (hs.trans hsuffix)]
        · rfl
        all_goals simp [hinner]
  | case2 => rfl
  | case3 rest ih =>
      by_cases hrest : rest = []
      · rw [hrest]
        rfl
      · have hquote : rest ≠ ['"'] := fun hquote => h ⟨[], congrArg ('\\' :: ·) hquote.symm⟩
        have hfirst : escapeLast ('\\' :: '\\' :: escapeInner rest) =
            '\\' :: escapeLast ('\\' :: escapeInner rest) :=
          escapeLast_cons (List.cons_ne_nil _ _) fun _ heq =>
            absurd (List.cons.inj heq).1 (by decide)
        rw [escapeInner_backslash, hfirst, escapeLast_inner hrest fun _ => hquote, tripled,
          ← ih fun hs => h (hs.trans (List.suffix_cons _ _))]
        rfl
  | case4 rest ih =>
      by_cases hrest : rest = []
      · rw [hrest]
        rfl
      · rw [escapeInner_plain (by decide) fun _ hc => absurd hc (by decide),
          escapeLast_inner hrest fun hc => absurd hc (by decide), tripled,
          ← ih fun hs => h (hs.trans (List.suffix_cons _ _))]
        rfl
  | case5 c rest htriple hlast hescape hreturn ih =>
      have hsame : ∀ ds, escapeReturns (c :: ds) = c :: escapeReturns ds := by
        intro ds
        simp [escapeReturns, show c ≠ '\r' from hreturn]
      rw [escapeInner_plain hescape fun more hc hrest => htriple more hc hrest,
        tripled.eq_5 c rest htriple hlast hescape hreturn]
      by_cases hrest : rest = []
      · have hc : c ≠ '"' := fun hc => hlast hc hrest
        have hone : escapeLast [c] = [c] := by simp [escapeLast, hc]
        subst hrest
        change escapeReturns (escapeLast [c]) = [c]
        rw [hone, hsame]
        rfl
      · rw [escapeLast_inner hrest fun hc => absurd hc hescape, hsame,
          ih fun hs => h (hs.trans (List.suffix_cons _ _))]
  | case6 => rfl

/-- A quoted text is one token, which shows the text. -/
theorem takeToken_quotedText {cs tail : List Char} (hcs : '\n' ∈ cs → ¬['\\', '"'] <:+ cs)
    (htail : tail.head? ≠ some '"') :
    takeToken (quotedText cs ++ tail) = some (.text (String.ofList cs), tail) := by
  rw [quotedText]
  by_cases hlines : '\n' ∈ cs
  · rw [if_pos (List.contains_iff_mem.mpr hlines), escapeLines_eq (hcs hlines)]
    have hshape : ['"', '"', '"'] ++ tripled cs ++ ['"', '"', '"'] ++ tail =
        '"' :: '"' :: '"' :: (tripled cs ++ '"' :: '"' :: '"' :: tail) := by simp
    rw [hshape]
    change ((takeLines '"' (tripled cs ++ '"' :: '"' :: '"' :: tail)).map _) = _
    rw [takeLines_tripled]
    rfl
  · rw [if_neg fun hmem => hlines (List.contains_iff_mem.mp hmem)]
    have hshape : '"' :: escapeLine cs ++ ['"'] ++ tail =
        '"' :: (escapeLine cs ++ '"' :: tail) := by simp
    have hread := takeLine_escapeLine hlines htail
    have hopening : ¬['"', '"'].isPrefixOf (escapeLine cs ++ '"' :: tail) = true := by
      intro hprefix
      rw [eq_cons_of_isPrefixOf hprefix, takeLine_plain (by decide),
        if_pos (beq_self_eq_true '"'), List.head?_cons, if_pos (beq_self_eq_true _)] at hread
      contradiction
    rw [hshape]
    change takeText '"' (escapeLine cs ++ '"' :: tail) = _
    rw [takeText, if_neg hopening, hread]
    rfl

theorem quotedText_eq_cons (cs : List Char) : ∃ more, quotedText cs = '"' :: more := by
  unfold quotedText
  split
  · exact ⟨_, rfl⟩
  · exact ⟨_, rfl⟩

end Literal

end EntityMapping
