import EntityMapping.Proofs.Sparql.Written

/-!
Texts that a request shows as they are.

A text is legible in a request if it stands on one line and holds neither tabs nor escapes of code
points, which are replaced before the request is cut into tokens.  A literal that shows such a text
gives the tokens of its text and its datatype.
-/

namespace EntityMapping

open Sparql.Lexer

/-! ### Texts -/

/-- A text in which no backslash begins the escape of a code point. -/
def Unescaped (cs : List Char) : Prop :=
  ∀ u rest, '\\' :: u :: rest <:+ cs → escapeWidth u rest = 0

/-- A text that a request shows as it is. -/
structure Legible (cs : List Char) : Prop where
  line : '\n' ∉ cs
  tab : '\t' ∉ cs
  unescaped : Unescaped cs

variable {c : Char} {cs tail : List Char}

theorem Unescaped.of_cons (h : Unescaped (c :: cs)) : Unescaped cs := fun u rest hsuffix =>
  h u rest (hsuffix.trans (List.suffix_cons c cs))

theorem unescaped_cons (hc : c ≠ '\\') : Unescaped (c :: cs) ↔ Unescaped cs := by
  refine ⟨Unescaped.of_cons, fun h u rest hsuffix => ?_⟩
  rcases List.suffix_cons_iff.mp hsuffix with heq | hsuffix
  · exact absurd (List.cons.inj heq).1.symm hc
  · exact h u rest hsuffix

theorem unescaped_backslash {u : Char} :
    Unescaped ('\\' :: u :: cs) ↔ escapeWidth u cs = 0 ∧ Unescaped (u :: cs) := by
  refine ⟨fun h => ⟨h u cs (List.suffix_refl _), h.of_cons⟩, fun ⟨hwidth, h⟩ v rest hsuffix => ?_⟩
  rcases List.suffix_cons_iff.mp hsuffix with heq | hsuffix
  · obtain ⟨rfl, rfl⟩ := List.cons.inj (List.cons.inj heq).2
    exact hwidth
  · exact h v rest hsuffix

theorem unescaped_of_not_mem (h : '\\' ∉ cs) : Unescaped cs := fun _ _ hsuffix =>
  absurd (hsuffix.subset List.mem_cons_self) h

theorem escapeWidth_of_ne {u : Char} (hu : u ≠ 'u' ∧ u ≠ 'U') (rest : List Char) :
    escapeWidth u rest = 0 := by
  simp [escapeWidth, hu.1, hu.2]

/-- Where nothing is escaped nothing is replaced. -/
theorem expanded_of_unescaped (h : Unescaped cs) : expanded cs = some cs := by
  rw [expanded]
  induction cs with
  | nil => rfl
  | cons c rest ih =>
      have hrest := ih h.of_cons
      rw [List.length_cons]
      by_cases hc : c = '\\'
      · subst hc
        cases rest with
        | nil => rfl
        | cons u rest =>
            rw [expandCodePoints_escape, if_pos (unescaped_backslash.mp h).1, hrest]
            rfl
      · rw [expandCodePoints_plain (Or.inl hc), hrest]
        rfl

namespace Literal

theorem escapeChar_cases (c : Char) :
    (∃ d, escapeChar c = ['\\', d] ∧ d ∉ ['u', 'U', '\t'] ∧ isHex c = false ∧
        (d = '\\' ↔ c = '\\')) ∨
      escapeChar c = [c] ∧ c ≠ '\\' := by
  unfold escapeChar
  split
  · exact Or.inl ⟨'\\', rfl, by decide⟩
  · exact Or.inl ⟨'"', rfl, by decide⟩
  · exact Or.inl ⟨'r', rfl, by decide⟩
  · next hescape _ _ => exact Or.inr ⟨rfl, hescape⟩

/-- Escaping a line leaves the digits at its beginning as they are. -/
theorem takeWhile_escapeLine (n : Nat) (cs : List Char) :
    ((escapeLine cs).take n).takeWhile isHex = (cs.take n).takeWhile isHex := by
  induction cs generalizing n with
  | nil => rfl
  | cons c cs ih =>
      cases n with
      | zero => rfl
      | succ n =>
          rw [escapeLine, List.flatMap_cons]
          rcases escapeChar_cases c with ⟨d, hd, -, hhex, -⟩ | ⟨hc, -⟩
          · have hmark : isHex '\\' = false := rfl
            rw [hd]
            simp [hhex, hmark]
          · rw [hc, List.singleton_append, List.take_succ_cons, List.take_succ_cons,
              List.takeWhile_cons, List.takeWhile_cons]
            have hrest := ih n
            rw [escapeLine] at hrest
            rw [hrest]

theorem escapeWidth_escapeLine (u : Char) (cs : List Char) :
    escapeWidth u (escapeLine cs) = escapeWidth u cs := by
  simp only [escapeWidth, takeWhile_escapeLine]

theorem escapeLine_cons (c : Char) (cs : List Char) :
    escapeLine (c :: cs) = escapeChar c ++ escapeLine cs :=
  List.flatMap_cons

/-- A backslash in front of a line begins no escape if it begins none in front of the text. -/
theorem unescaped_backslash_escapeLine (h : Unescaped ('\\' :: cs))
    (hrest : Unescaped (escapeLine cs ++ '"' :: tail)) :
    Unescaped ('\\' :: (escapeLine cs ++ '"' :: tail)) := by
  cases cs with
  | nil => exact unescaped_backslash.mpr ⟨escapeWidth_of_ne (by decide) _, hrest⟩
  | cons c cs =>
      rw [escapeLine_cons, List.append_assoc] at hrest ⊢
      rcases escapeChar_cases c with ⟨d, hd, -⟩ | ⟨hc, -⟩
      · rw [hd] at hrest ⊢
        exact unescaped_backslash.mpr ⟨escapeWidth_of_ne (by decide) _, hrest⟩
      · rw [hc] at hrest ⊢
        refine unescaped_backslash.mpr ⟨?_, hrest⟩
        change escapeWidth c (escapeLine cs ++ '"' :: tail) = 0
        rw [escapeWidth_append (by decide), escapeWidth_escapeLine]
        exact (unescaped_backslash.mp h).1

/-- A line in quotes has no escapes of code points if the text has none. -/
theorem unescaped_escapeLine (h : Unescaped cs) (htail : '\\' ∉ tail) :
    Unescaped (escapeLine cs ++ '"' :: tail) := by
  induction cs with
  | nil => exact unescaped_of_not_mem (by simp [escapeLine, htail])
  | cons c cs ih =>
      have hrest := ih h.of_cons
      rw [escapeLine_cons, List.append_assoc]
      rcases escapeChar_cases c with ⟨d, hd, hnot, -, hbackslash⟩ | ⟨hc, hne⟩
      · simp only [List.mem_cons, List.not_mem_nil, or_false, not_or] at hnot
        rw [hd]
        refine unescaped_backslash.mpr ⟨escapeWidth_of_ne ⟨hnot.1, hnot.2.1⟩ _, ?_⟩
        by_cases hdc : d = '\\'
        · -- The second backslash of the two stands where the only one did.
          obtain rfl := hbackslash.mp hdc
          subst hdc
          exact unescaped_backslash_escapeLine h hrest
        · exact (unescaped_cons hdc).mpr hrest
      · rw [hc]
        exact (unescaped_cons hne).mpr hrest

/-! ### Tokens -/

/-- An IRI that may stand behind a literal in a request. -/
def IsDatatype (s : String) : Prop :=
  s ≠ "" ∧ ∀ c ∈ s.toList, isIriChar c = true

variable {l : Literal} {s datatype : String}

theorem IsDatatype.not_mem (h : IsDatatype datatype) (hc : isIriChar c = false) :
    c ∉ datatype.toList := fun hmem =>
  Bool.noConfusion ((h.2 c hmem).symm.trans hc)

/-- The literal that a request shows where it shows a literal without a language. -/
def reread (l : Literal) : Literal :=
  ofText (String.ofList l.shown) l.datatype

theorem adjacentTokens_token {fuel : Nat} {rest : List Char} {t : Sparql.Token}
    {ts : List Sparql.Token} (ht : takeToken (c :: cs) = some (t, rest))
    (h : adjacentTokens fuel rest = some ts) :
    adjacentTokens (fuel + 1) (c :: cs) = some (t :: ts) := by
  simp [adjacentTokens, ht, h]

theorem adjacentTokens_none (fuel : Nat) : adjacentTokens fuel [] = some [] := by
  cases fuel <;> rfl

/-- The tokens of a literal without a language. -/
theorem exists_tokens (hlanguage : l.language = none)
    (hdatatype : ∀ d, l.datatype = some d → IsDatatype d) (hline : '\n' ∉ l.shown) :
    ∃ ts, adjacentTokens l.n3.toList.length l.n3.toList = some ts ∧
      (Sparql.Grammar.literal ⟨none, []⟩).parseAll ts = some l.reread := by
  have htext : ∀ tail : List Char, tail.head? ≠ some '"' →
      takeToken (quotedText l.shown ++ tail) = some (.text (String.ofList l.shown), tail) :=
    fun _ htail => takeToken_quotedText (fun hmem => absurd hmem hline) htail
  obtain ⟨more, hmore⟩ := quotedText_eq_cons l.shown
  rw [n3_toList]
  cases hd : l.datatype with
  | none =>
      have hsuffix : l.suffix = [] := by simp only [suffix, hlanguage, hd]
      refine ⟨[.text (String.ofList l.shown)], ?_, ?_⟩
      · have htoken := htext [] (by simp)
        rw [hsuffix]
        rw [hmore] at htoken ⊢
        exact adjacentTokens_token htoken (adjacentTokens_none _)
      · rw [reread, hd]
        rfl
  | some d =>
      obtain ⟨hne, hall⟩ := hdatatype d hd
      have hempty : ¬d.isEmpty = true := by simpa using hne
      have hsuffix : l.suffix = '^' :: '^' :: '<' :: (d.toList ++ ['>']) := by
        simp only [suffix, hlanguage, hd, if_neg hempty]
        rfl
      refine ⟨[.text (String.ofList l.shown), .sign "^^", .iri d], ?_, ?_⟩
      · have htoken := htext ('^' :: '^' :: '<' :: (d.toList ++ ['>'])) (by simp)
        have hmark : takeToken ('^' :: '^' :: '<' :: (d.toList ++ ['>'])) =
            some (.sign "^^", '<' :: (d.toList ++ ['>'])) := rfl
        have hlength : (quotedText l.shown ++ l.suffix).length =
            (more.length + d.toList.length + 2) + 1 + 1 + 1 := by
          rw [hmore, hsuffix]
          simp only [List.length_cons, List.length_append, List.length_nil]
          omega
        rw [hlength, hsuffix]
        rw [hmore] at htoken ⊢
        exact adjacentTokens_token htoken (adjacentTokens_token hmark
          (adjacentTokens_token (takeToken_iri hall []) (adjacentTokens_none _)))
      · have hread : (Sparql.Grammar.literal ⟨none, []⟩)
            [.text (String.ofList l.shown), .sign "^^", .iri d] =
              some (typed (String.ofList l.shown) (Iri.resolve none d), []) := rfl
        rw [Iri.resolve_none] at hread
        rw [reread, hd, Sparql.Parser.parseAll, hread]
        rfl

/-- A literal that is read in a request as the same literal. -/
theorem readsBack_of_reread (hlanguage : l.language = none)
    (hdatatype : ∀ d, l.datatype = some d → IsDatatype d) (hshown : Legible l.shown)
    (hsame : l.reread.same l = true) : l.ReadsBack := by
  obtain ⟨ts, hcut, hread⟩ := exists_tokens hlanguage hdatatype hshown.line
  have hsuffix : ∀ c, isIriChar c = false → c ∉ ['^', '<', '>'] → c ∉ l.suffix := by
    intro c hc hmarks
    simp only [List.mem_cons, List.not_mem_nil, or_false, not_or] at hmarks
    cases hd : l.datatype with
    | none => simp [suffix, hlanguage, hd]
    | some d =>
        simp only [suffix, hlanguage, hd]
        split
        · exact List.not_mem_nil
        · simp [hmarks, (hdatatype d hd).not_mem hc]
  have hquoted : quotedText l.shown = '"' :: (escapeLine l.shown ++ ['"']) := by
    rw [quotedText, if_neg fun hmem => hshown.line (List.contains_iff_mem.mp hmem)]
    rfl
  have htext : l.n3.toList = '"' :: (escapeLine l.shown ++ '"' :: l.suffix) := by
    rw [n3_toList, hquoted]
    simp
  have hexpanded : expanded l.n3.toList = some l.n3.toList := by
    rw [htext]
    exact expanded_of_unescaped ((unescaped_cons (by decide)).mpr
      (unescaped_escapeLine hshown.unescaped (hsuffix _ (by decide) (by decide))))
  have htab : '\t' ∉ l.n3.toList := by
    have hline : '\t' ∉ escapeLine l.shown := by
      intro hmem
      obtain ⟨c, hc, hin⟩ := List.mem_flatMap.mp hmem
      rcases escapeChar_cases c with ⟨d, hd, hnot, -⟩ | ⟨hsame, -⟩
      · rw [hd] at hin
        rcases List.mem_cons.mp hin with hin | hin
        · contradiction
        · exact hnot (List.mem_singleton.mp hin ▸ by simp)
      · rw [hsame, List.mem_singleton] at hin
        exact hshown.tab (hin ▸ hc)
    rw [htext]
    simp [hline, hsuffix _ (show isIriChar '\t' = false by decide) (by decide)]
  exact readsBack_of_no_tab hexpanded htab hcut hread hsame

end Literal

end EntityMapping
