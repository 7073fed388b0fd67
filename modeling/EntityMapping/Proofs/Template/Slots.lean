import EntityMapping.Proofs.Change.Founded
import EntityMapping.Proofs.Filling
import EntityMapping.Proofs.Sparql.Literals
import EntityMapping.Proofs.Sparql.Lookahead

/-!
The tokens of a filled template.

A template is scanned for slots without regard to its tokens, so what is filled need not be what
the lexer takes for a variable.  Where it is, each bound variable gives way to the tokens of its
term, and all other tokens stay.  Filling goes from the left and so does cutting, so the two are
followed side by side along the template.
-/

namespace EntityMapping

open Sparql Sparql.Lexer

/-! ### Filling up to a slot -/

/-- The same text, or one that is the same up to a slot and begins there as a written term does. -/
def AgreeToSlot (cs ds : List Char) : Prop :=
  ds = cs ∨ ∃ r a b, cs = r ++ a ∧ ds = r ++ b ∧ OpensSlot a ∧ OpensTerm b

theorem AgreeToSlot.append {cs ds : List Char} (h : AgreeToSlot cs ds) (s : List Char) :
    AgreeToSlot (s ++ cs) (s ++ ds) := by
  rcases h with rfl | ⟨r, a, b, rfl, rfl, ha, hb⟩
  · exact Or.inl rfl
  · exact Or.inr ⟨s ++ r, a, b, (List.append_assoc s r a).symm, (List.append_assoc s r b).symm,
      ha, hb⟩

theorem Term.opensTerm {t : Term} (h : t.Bindable) : OpensTerm t.n3.toList := by
  cases t with
  | iri s => exact ⟨'<', s.toList ++ ['>'], by simp [Term.n3], Or.inl rfl⟩
  | literal l =>
      obtain ⟨cs, hcs⟩ := l.n3_eq_quote
      exact ⟨'"', cs, hcs, Or.inr rfl⟩
  | blank label => exact h.elim
  | var name => exact h.elim

section Filling

variable {bindings : List (String × Term)}

/-- Filling leaves a text as it is up to the first slot that is bound. -/
theorem agreeToSlot_filled
    (hbound : ∀ name term, bindings.lookup name = some term → term.Bindable) (cs : List Char) :
    AgreeToSlot cs (Piece.filled bindings cs) := by
  -- The first slot that is bound ends the walk, so what is behind it does not matter.
  induction hlength : cs.length using Nat.strong_induction_on generalizing cs with
  | h n ih =>
      rcases cs with - | ⟨c, rest⟩
      · exact Or.inl rfl
      · rw [List.length_cons] at hlength
        rw [Piece.filled_cons]
        cases hlong : Piece.takeLong c rest with
        | none => exact (ih rest.length (by omega) rest rfl).append [c]
        | some found =>
            obtain ⟨piece, behind⟩ := found
            have hlt := Piece.takeLong_length hlong
            have hbehind := ih behind.length (by omega) behind rfl
            obtain ⟨body, hbody, hrest, hmark⟩ := Piece.takeLong_text hlong
            have hpiece : c :: rest = piece.text ++ behind := by rw [hbody, hrest]; rfl
            rw [hpiece]
            cases piece with
            | verbatim s => exact hbehind.append s
            | slot mark name =>
                simp only [Piece.fill]
                cases hlookup : bindings.lookup (String.ofList name) with
                | none => exact hbehind.append (mark :: name)
                | some term =>
                    exact Or.inr ⟨[], _, _, rfl, rfl, ⟨mark, _, rfl, hmark⟩,
                      (Term.opensTerm (hbound _ term hlookup)).append _⟩

theorem stops_filled {p : Char → Bool} (hp : p '?' = true ∧ p '$' = true)
    (hbound : ∀ name term, bindings.lookup name = some term → term.Bindable) {cs : List Char}
    (h : Stops p cs) : Stops p (Piece.filled bindings cs) := by
  rcases agreeToSlot_filled hbound cs with hsame | ⟨r, a, b, rfl, hfilled, ha, -⟩
  · rw [hsame]
    exact h
  · rw [hfilled]
    cases r with
    | nil =>
        obtain ⟨c, rest, rfl, rfl | rfl⟩ := ha
        · exact absurd (h.symm.trans hp.1) (by decide)
        · exact absurd (h.symm.trans hp.2) (by decide)
    | cons c r => exact h

end Filling

/-! ### Templates whose slots are their variables -/

/-- Characters that a slot may not stand right in front of: those that a written term could run on
with, and those that another slot begins with. -/
def isSlotAdhesive (c : Char) : Bool :=
  c == '"' || c == '-' || c == '?' || c == '$' || isVarPart c

/-- Whatever stands in front of a rest is cut into pieces of its own, and none of them is a slot. -/
def Kept (text rest : List Char) : Prop :=
  ∃ pieces : List Piece, (∀ piece ∈ pieces, piece.slotName? = none) ∧
    pieces.flatMap Piece.text = text ∧
      Piece.within (text ++ rest).length (text ++ rest) = pieces ++ Piece.within rest.length rest

theorem Kept.filled {text rest : List Char} (h : Kept text rest)
    (bindings : List (String × Term)) :
    Piece.filled bindings (text ++ rest) = text ++ Piece.filled bindings rest := by
  obtain ⟨pieces, hslots, htext, hpieces⟩ := h
  have hfill : pieces.flatMap (Piece.fill bindings) = pieces.flatMap Piece.text := by
    refine List.flatMap_congr fun piece hpiece => ?_
    cases piece with
    | verbatim s => rfl
    | slot mark name => exact absurd (hslots _ hpiece) (by simp [Piece.slotName?])
  rw [Piece.filled, hpieces, List.flatMap_append, hfill, htext]
  rfl

theorem kept_plain {text : List Char} (h : text.all Piece.isPlain = true) (rest : List Char) :
    Kept text rest := by
  refine ⟨text.map fun c => .verbatim [c], ?_, ?_, ?_⟩
  · intro piece hpiece
    obtain ⟨c, -, rfl⟩ := List.mem_map.mp hpiece
    rfl
  · rw [List.flatMap_map]
    exact List.flatMap_singleton' text
  · induction text with
    | nil => rfl
    | cons c text ih =>
        rw [List.all_cons, Bool.and_eq_true] at h
        rw [List.cons_append, List.length_cons, Piece.within, Piece.takeLong_plain h.1]
        exact congrArg (Piece.verbatim [c] :: ·) (ih h.2)

theorem kept_verbatim {c : Char} {word rest : List Char}
    (h : Piece.takeLong c (word ++ rest) = some (.verbatim (c :: word), rest)) :
    Kept (c :: word) rest := by
  refine ⟨[.verbatim (c :: word)], by simp [Piece.slotName?], by simp [Piece.text], ?_⟩
  have hrest : Piece.within (word ++ rest).length rest = Piece.within rest.length rest :=
    Piece.within_length (by simp) (Nat.le_refl _)
  rw [List.cons_append, List.length_cons, Piece.within, h]
  exact congrArg (_ :: ·) hrest

/-- A text whose slots are its variables.  Each variable is cut out as one slot, with nothing behind
it that a written term could run on with.  No slot is cut from a comment or from another token, and
no text in double quotes stands right in front of one. -/
inductive Slotted : List Char → Prop where
  | nothing : Slotted []
  | space {c : Char} {rest : List Char} (hc : isSpace c = true) (h : Slotted rest) :
      Slotted (c :: rest)
  | comment {body rest : List Char} (hbody : '\n' ∉ body)
      (hrest : rest = [] ∨ rest.head? = some '\n') (hkept : Kept ('#' :: body) rest)
      (h : Slotted rest) : Slotted ('#' :: body ++ rest)
  | slot {mark : Char} {name rest : List Char} (hmark : mark = '?' ∨ mark = '$')
      (hname : Piece.IsSlotName name) (hrest : Stops isSlotAdhesive rest) (h : Slotted rest) :
      Slotted (mark :: name ++ rest)
  | token {c : Char} {word rest : List Char} {t : Token}
      (ht : takeToken (c :: word ++ rest) = some (t, rest)) (hvar : ∀ name, t ≠ .var name)
      (hkept : Kept (c :: word) rest) (hquote : c = '"' → ¬OpensSlot rest) (h : Slotted rest) :
      Slotted (c :: word ++ rest)

/-- A word of plain characters needs no more than its token. -/
theorem Slotted.plain {c : Char} {word rest : List Char} {t : Token}
    (hplain : (c :: word).all Piece.isPlain = true)
    (ht : takeToken (c :: word ++ rest) = some (t, rest)) (hvar : ∀ name, t ≠ .var name)
    (h : Slotted rest) : Slotted (c :: word ++ rest) := by
  refine .token ht hvar (kept_plain hplain rest) ?_ h
  rintro rfl
  rw [List.all_cons, Bool.and_eq_true] at hplain
  exact absurd hplain.1 (by decide)

/-- The tokens of a term. -/
def Term.tokens : Term → List Token
  | .iri s => [.iri s]
  | .literal l => l.tokens
  | .blank label => [.blank label]
  | .var name => [.var name]

/-- The tokens that take the place of a token, for what is bound to the names of variables. -/
def tokensFor (bound : String → Option Term) : Token → List Token
  | .var name => (bound name).elim [.var name] Term.tokens
  | t => [t]

/-- A term that stays inside its marks: an IRI without control characters, or a literal whose parts
do. -/
def Term.Clean : Term → Prop
  | .iri s => ∀ c ∈ s.toList, 0x20 ≤ c.toNat
  | .literal l => l.Clean
  | _ => True

theorem isIriChar_of_accepted {s : String} (h : AcceptedIri s) (hclean : (Term.iri s).Clean) :
    ∀ c ∈ s.toList, isIriChar c = true := by
  intro c hc
  have hbreaker := List.any_eq_false.mp (accepted_iff.mp h).2 c hc
  simp only [isIriBreaker, Bool.or_eq_true, not_or, Bool.not_eq_true] at hbreaker
  obtain ⟨hmark, hblank⟩ := hbreaker
  have hspace : c.toNat ≠ 0x20 := by
    rintro hspace
    simp [Text.isBlank, hspace] at hblank
  have hcontrol := hclean c hc
  rw [isIriChar, Bool.and_eq_true, decide_eq_true_eq]
  exact ⟨by omega, by rw [iriBreakers, hmark]; rfl⟩

theorem cuts_term {t : Term} (hbound : t.Bindable) (hclean : t.Clean) {tail : List Char}
    {ts : List Token} (htail : Stops Literal.isAdhesive tail) (hts : Cuts tail ts) :
    Cuts (t.n3.toList ++ tail) (t.tokens ++ ts) := by
  cases t with
  | iri s =>
      have htext : (Term.iri s).n3.toList ++ tail = '<' :: (s.toList ++ '>' :: tail) := by
        simp [Term.n3]
      have hiri := takeToken_iri (isIriChar_of_accepted hbound hclean) tail
      rw [htext]
      exact cuts_token ⟨by decide, by decide⟩ (by simp; omega) hiri hts
  | literal l => exact Literal.cuts_n3 hclean htail hts
  | blank label => exact hbound.elim
  | var name => exact hbound.elim

theorem isVarPart_of_isAlphanum {c : Char} (h : c.isAlphanum = true) : isVarPart c = true := by
  rw [Char.isAlphanum, Bool.or_eq_true] at h
  rcases h with halpha | hdigit
  · simp [isVarPart, isNameStart, isNameBase, halpha]
  · simp [isVarPart, hdigit]

theorem isVarPart_of_isSlotPart {c : Char} (h : Piece.isSlotPart c = true) :
    isVarPart c = true := by
  rw [Piece.isSlotPart, Bool.or_eq_true, beq_iff_eq] at h
  rcases h with halnum | rfl
  · exact isVarPart_of_isAlphanum halnum
  · rfl

theorem takeToken_slot {mark : Char} (hmark : mark = '?' ∨ mark = '$') {name rest : List Char}
    (hname : Piece.IsSlotName name) (hrest : Stops isVarPart rest) :
    takeToken (mark :: name ++ rest) = some (.var (String.ofList name), rest) := by
  have hparts : ∀ c ∈ name, isVarPart c = true := fun c hc =>
    isVarPart_of_isSlotPart (hname.2 c hc)
  have hvar : takeVar (name ++ rest) = some (.var (String.ofList name), rest) := by
    have hrun := takeRun_of_all hparts hrest
    rcases name with - | ⟨c, name⟩
    · exact absurd hname.1 (by decide)
    · have hstart : isNameStart c = true := by
        have hslot : Piece.isSlotStart c = true := hname.1
        simp only [Piece.isSlotStart, Bool.or_eq_true, beq_iff_eq] at hslot
        rcases hslot with halpha | rfl
        · simp [isNameStart, isNameBase, halpha]
        · decide
      rw [List.cons_append] at hrun ⊢
      simp only [takeVar, hstart, Bool.true_or, if_true, hrun]
  rcases hmark with rfl | rfl
  · change (takeVar (name ++ rest)).or _ = _
    rw [hvar]
    rfl
  · exact hvar

section Rendering

variable {bindings : List (String × Term)}

theorem filled_space {c : Char} (hc : isSpace c = true) (rest : List Char) :
    Piece.filled bindings (c :: rest) = c :: Piece.filled bindings rest := by
  have hplain : Piece.isPlain c = true := by
    simp only [isSpace, Bool.or_eq_true, beq_iff_eq] at hc
    rcases hc with ((rfl | rfl) | rfl) | rfl <;> decide
  rw [Piece.filled_cons, Piece.takeLong_plain hplain]

theorem isSlotAdhesive_of_isAdhesive {c : Char} (h : Literal.isAdhesive c = true) :
    isSlotAdhesive c = true := by
  simp only [Literal.isAdhesive, isTagPart, Bool.or_eq_true, beq_iff_eq] at h
  rcases h with rfl | halnum | rfl
  · rfl
  · simp [isSlotAdhesive, isVarPart_of_isAlphanum halnum]
  · rfl

/-- A token in front of a rest is the same in front of the filled rest. -/
theorem takeToken_kept
    (hbound : ∀ name term, bindings.lookup name = some term → term.Bindable)
    {c : Char} {word rest : List Char} {t : Token} (hquote : c = '"' → ¬OpensSlot rest)
    (ht : takeToken (c :: word ++ rest) = some (t, rest)) :
    takeToken (c :: word ++ Piece.filled bindings rest) =
      some (t, Piece.filled bindings rest) := by
  rcases agreeToSlot_filled hbound rest with hrest | ⟨r, a, b, rfl, hfilled, ha, hb⟩
  · rw [hrest]
    exact ht
  · rw [hfilled, ← List.append_assoc]
    rw [← List.append_assoc] at ht
    refine takeToken_filled ha hb (by simp) (fun hc => ?_) ht
    rintro rfl
    exact hquote (Option.some.inj hc) ha

/-- A template is cut into its tokens with the terms' tokens in place of the bound variables. -/
theorem cuts_filled
    (hbound : ∀ name term, bindings.lookup name = some term → term.Bindable)
    (hclean : ∀ name term, bindings.lookup name = some term → term.Clean) {cs : List Char}
    (h : Slotted cs) {fuel : Nat} {ts : List Token} (hts : tokensWithin fuel cs = some ts) :
    Cuts (Piece.filled bindings cs) (ts.flatMap (tokensFor fun name => bindings.lookup name)) := by
  -- Each token of the template takes one of its fuel, so the fuel changes along with the text.
  induction h generalizing fuel ts with
  | nothing =>
      cases fuel with
      | zero => contradiction
      | succ fuel =>
          obtain rfl := Option.some.inj hts
          exact cuts_nil
  | space hc h ih =>
      rw [tokensWithin_skip (skipBlank_space hc _)] at hts
      rw [filled_space hc]
      exact cuts_skip (skipBlank_space hc _) (Nat.le_succ _) (ih hts)
  | @comment body rest hbody hrest hkept h ih =>
      have hfilled : Piece.filled bindings rest = [] ∨
          (Piece.filled bindings rest).head? = some '\n' := by
        rcases hrest with rfl | hrest
        · exact Or.inl rfl
        · obtain ⟨more, rfl⟩ := List.head?_eq_some_iff.mp hrest
          exact Or.inr (by rw [filled_space (by decide)]; rfl)
      rw [tokensWithin_skip (skipBlank_comment hbody hrest)] at hts
      rw [hkept.filled bindings]
      exact cuts_skip (skipBlank_comment hbody hfilled) (by simp; omega) (ih hts)
  | @slot mark name rest hmark hname hrest h ih =>
      have hvar : Stops isVarPart rest := hrest.mono fun c hc => by simp [isSlotAdhesive, hc]
      obtain ⟨n, us, rfl, hus⟩ := tokensWithin_token (takeToken_slot hmark hname hvar) hts
      have hslot : Stops Piece.isSlotPart rest := hvar.mono fun c hc => isVarPart_of_isSlotPart hc
      have hbehind := stops_filled ⟨rfl, rfl⟩ hbound hrest
      rw [Piece.filled_slot hmark hname hslot, List.flatMap_cons]
      simp only [Piece.fill, tokensFor]
      cases hlookup : bindings.lookup (String.ofList name) with
      | some term =>
          exact cuts_term (hbound _ _ hlookup) (hclean _ _ hlookup)
            (hbehind.mono fun c => isSlotAdhesive_of_isAdhesive) (ih hus)
      | none =>
          have hnext : Stops isVarPart (Piece.filled bindings rest) :=
            hbehind.mono fun c hc => by simp [isSlotAdhesive, hc]
          have hbegins : Begins mark := by rcases hmark with rfl | rfl <;> exact ⟨rfl, by decide⟩
          exact cuts_token hbegins (by simp) (takeToken_slot hmark hname hnext) (ih hus)
  | @token c word rest t ht hvar hkept hquote h ih =>
      obtain ⟨n, us, rfl, hus⟩ := tokensWithin_token ht hts
      have hsame : tokensFor (fun name => bindings.lookup name) t = [t] := by
        cases t with
        | var name => exact absurd rfl (hvar name)
        | _ => rfl
      rw [hkept.filled bindings, List.flatMap_cons, hsame]
      exact cuts_token (begins_of_takeToken ht) (by simp) (takeToken_kept hbound hquote ht)
        (ih hus)

end Rendering

end EntityMapping
