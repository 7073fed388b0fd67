import EntityMapping.Proofs.Sparql.Respelling

/-!
The tokens of a written literal.

A text is followed by its language tag, by its datatype or by nothing.  The tokens are these as long
as each part stays inside its marks and nothing stands behind that a plain text or a tag could run
on with.
-/

namespace EntityMapping

namespace Literal

open Sparql Sparql.Lexer

/-! ### Tags and datatypes -/

theorem isAlpha_of_isTagLetter {c : Char} (h : isTagLetter c = true) : c.isAlpha = true := by
  have halpha : c.isAlpha = (c.isUpper || c.isLower) := rfl
  have hupper : c.isUpper = decide ('A' ≤ c ∧ c ≤ 'Z') := rfl
  have hlower : c.isLower = (decide ('a' ≤ c) && decide (c ≤ 'z')) := rfl
  rw [halpha, hupper, hlower, Bool.or_comm, Bool.decide_and]
  exact h

/-- The parts of a tag behind its first one. -/
def tagTail (parts : List (List Char)) : List Char :=
  parts.flatMap ('-' :: ·)

theorem stops_tagTail {p : Char → Bool} (hp : p '-' = false) (parts : List (List Char)) :
    Stops p (tagTail parts) := by
  cases parts with
  | nil => rfl
  | cons part parts => exact hp

theorem intercalate_hyphen (head : List Char) (parts : List (List Char)) :
    ['-'].intercalate (head :: parts) = head ++ tagTail parts := by
  induction parts generalizing head with
  | nil => simp [List.intercalate, tagTail]
  | cons part parts ih =>
      have hmore := ih part
      simp only [List.intercalate, List.intersperse_cons_cons, List.flatten_cons] at hmore ⊢
      rw [hmore]
      rfl

theorem parts_tagTail {parts : List (List Char)}
    (h : ∀ part ∈ parts, part ≠ [] ∧ ∀ c ∈ part, c.isAlphanum = true) {fuel : Nat}
    (hfuel : parts.length ≤ fuel) : takeTag.parts fuel (tagTail parts) = (tagTail parts, []) := by
  induction parts generalizing fuel with
  | nil => exact parts_other (by simp [tagTail]) fuel
  | cons part parts ih =>
      obtain ⟨fuel, rfl⟩ := Nat.exists_eq_succ_of_ne_zero
        (Nat.ne_of_gt (Nat.lt_of_lt_of_le (Nat.succ_pos _) hfuel))
      obtain ⟨⟨hne, hpart⟩, hrest⟩ := List.forall_mem_cons.mp h
      have hrun := takeRun_of_all hpart (stops_tagTail (p := Char.isAlphanum) (by decide) parts)
      have hcons : tagTail (part :: parts) = '-' :: (part ++ tagTail parts) := rfl
      rw [hcons, parts_hyphen, hrun, if_neg hne, ih hrest (Nat.le_of_succ_le_succ hfuel)]
      rfl

theorem length_le_tagTail (parts : List (List Char)) : parts.length ≤ (tagTail parts).length := by
  induction parts with
  | nil => exact Nat.le_refl 0
  | cons part parts ih =>
      simp only [tagTail, List.flatMap_cons, List.length_append, List.length_cons] at ih ⊢
      omega

theorem takeTag_tag {tag : String} (h : isTag tag = true) :
    takeTag tag.toList = some (.tag tag, []) := by
  unfold isTag tagParts at h
  split at h
  · contradiction
  · next head parts hsplit =>
      simp only [Bool.and_eq_true, Bool.not_eq_true', List.isEmpty_eq_false_iff,
        List.all_eq_true] at h
      obtain ⟨⟨hne, hhead⟩, hparts⟩ := h
      have htag : tag.toList = head ++ tagTail parts := by
        rw [← intercalate_hyphen, ← hsplit, List.intercalate_splitOn]
      have hrun := takeRun_of_all (fun c hc => isAlpha_of_isTagLetter (hhead c hc))
        (stops_tagTail (p := Char.isAlpha) (by decide) parts)
      have hmore := parts_tagTail (fun part hpart => ⟨(hparts part hpart).1, fun c hc => by
        rw [Char.isAlphanum, Bool.or_eq_true]
        exact ((Bool.or_eq_true _ _).mp ((hparts part hpart).2 c hc)).imp_left
          isAlpha_of_isTagLetter⟩) (length_le_tagTail parts)
      rw [htag, takeTag, hrun]
      rcases head with - | ⟨c, head⟩
      · contradiction
      · simp only [hmore]
        rw [← htag, String.ofList_toList]

/-! ### Literals and IRIs -/

/-- The tokens of a literal's tag or datatype. -/
def suffixTokens (l : Literal) : List Token :=
  match l.language, l.datatype with
  | some tag, _ => [.tag tag]
  | none, some datatype => if datatype.isEmpty then [] else [.sign "^^", .iri datatype]
  | none, none => []

/-- The tokens of a literal: its text, and its tag or datatype. -/
def tokens (l : Literal) : List Token :=
  .text (String.ofList l.shown) :: l.suffixTokens

/-- A literal whose parts stay inside their marks: the tag is one, the datatype has only characters
that an IRI may have, and no text of several lines ends in a backslash and a quote. -/
structure Clean (l : Literal) : Prop where
  tag : ∀ tag, l.language = some tag → isTag tag = true
  datatype : l.language = none → ∀ d, l.datatype = some d → ∀ c ∈ d.toList, isIriChar c = true
  text : '\n' ∈ l.lexical.toList → ¬['\\', '"'] <:+ l.lexical.toList

theorem cuts_suffix {l : Literal} (h : l.Clean) {tail : List Char} {ts : List Token}
    (htail : Stops isTagPart tail) (hts : Cuts tail ts) :
    Cuts (l.suffix ++ tail) (l.suffixTokens ++ ts) := by
  cases hlanguage : l.language with
  | some tag =>
      have htag := takeTag_append htail tag.toList
      rw [takeTag_tag (h.tag tag hlanguage)] at htag
      simp only [suffix, suffixTokens, hlanguage]
      exact cuts_token (c := '@') ⟨by decide, by decide⟩ (by simp) htag hts
  | none =>
      cases hdatatype : l.datatype with
      | none => simpa only [suffix, suffixTokens, hlanguage, hdatatype, List.nil_append] using hts
      | some d =>
          simp only [suffix, suffixTokens, hlanguage, hdatatype]
          by_cases hempty : d.isEmpty = true
          · simpa only [if_pos hempty, List.nil_append] using hts
          · have hall := h.datatype hlanguage d hdatatype
            have hshape : '^' :: '^' :: '<' :: d.toList ++ ['>'] ++ tail =
                '^' :: '^' :: '<' :: (d.toList ++ '>' :: tail) := by simp
            have hmark : takeToken ('^' :: '^' :: '<' :: (d.toList ++ '>' :: tail)) =
                some (.sign "^^", '<' :: (d.toList ++ '>' :: tail)) := rfl
            rw [if_neg hempty, if_neg hempty, hshape]
            refine cuts_token ⟨by decide, by decide⟩ (Nat.le_succ _) hmark ?_
            exact cuts_token ⟨by decide, by decide⟩ (by simp; omega) (takeToken_iri hall tail) hts

/-- Characters that a written literal could run on with. -/
def isAdhesive (c : Char) : Bool :=
  c == '"' || isTagPart c

theorem n3_toList (l : Literal) : l.n3.toList = quotedText l.shown ++ l.suffix := by
  rw [n3, String.toList_ofList, spellNonFinite_quotedText]

/-- A written literal begins with a quote. -/
theorem n3_eq_quote (l : Literal) : ∃ cs, l.n3.toList = '"' :: cs := by
  obtain ⟨more, hmore⟩ := quotedText_eq_cons l.shown
  exact ⟨more ++ l.suffix, by rw [n3_toList, hmore]; rfl⟩

theorem cuts_n3 {l : Literal} (h : l.Clean) {tail : List Char} {ts : List Token}
    (htail : Stops isAdhesive tail) (hts : Cuts tail ts) :
    Cuts (l.n3.toList ++ tail) (l.tokens ++ ts) := by
  have htag : Stops isTagPart tail := by
    cases tail with
    | nil => rfl
    | cons c rest => exact (Bool.or_eq_false_iff.mp htail).2
  have hquote : (l.suffix ++ tail).head? ≠ some '"' := by
    have hnone := htail.head?_ne (c := '"') rfl
    unfold suffix
    split
    · simp
    · split
      · exact hnone
      · simp
    · exact hnone
  have hclean : '\n' ∈ l.shown → ¬['\\', '"'] <:+ l.shown := by
    rcases shown_eq_or_unquoted l with hsame | hunquoted
    · rw [hsame]
      exact h.text
    · exact fun _ => Unquoted.not_suffix hunquoted
  have htoken := takeToken_quotedText hclean hquote
  have hcuts := cuts_suffix h htag hts
  obtain ⟨more, hmore⟩ := quotedText_eq_cons l.shown
  rw [n3_toList, List.append_assoc]
  rw [hmore] at htoken ⊢
  refine cuts_token ⟨by decide, by decide⟩ ?_ htoken hcuts
  simp

end Literal

end EntityMapping
