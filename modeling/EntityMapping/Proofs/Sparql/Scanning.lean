import EntityMapping.Proofs.Sparql.Enclosed
import EntityMapping.Proofs.Sparql.Lookahead

/-!
What every token of a text is like.

A token takes at least as many characters as it may turn into tokens, and the text goes on behind
them.  What is written as a sign stands in the text.
-/

namespace EntityMapping.Sparql.Lexer

/-! ### The text behind a token -/

theorem takeRun_suffix (p : Char → Bool) (cs : List Char) : (takeRun p cs).2 <:+ cs :=
  List.dropWhile_suffix p

theorem suffix_of_cons {c d : Char} {more cs : List Char} (h : d :: more <:+ c :: cs) :
    more <:+ cs := by
  rcases List.suffix_cons_iff.mp h with hall | hless
  · exact (List.cons.inj hall).2 ▸ List.suffix_refl more
  · exact (List.suffix_cons _ _).trans hless

/-- A run that is not empty takes the first character. -/
theorem takeRun_suffix_tail {p : Char → Bool} {c : Char} {cs : List Char}
    (h : ¬(takeRun p (c :: cs)).1.isEmpty = true) : (takeRun p (c :: cs)).2 <:+ cs := by
  by_cases hc : p c = true
  · simp only [takeRun, List.dropWhile_cons, hc, if_true]
    exact List.dropWhile_suffix p
  · exact absurd (by simp [takeRun, hc]) h

theorem splitFinalPoints_suffix (cs : List Char) : (splitFinalPoints cs).2 <:+ cs := by
  have hpoints : cs.reverse.takeWhile (· == '.') = (cs.reverse.takeWhile (· == '.')).reverse := by
    have hall : ∀ c ∈ cs.reverse.takeWhile (· == '.'), c = '.' := fun c hc =>
      beq_iff_eq.mp (List.all_eq_true.mp List.all_takeWhile c hc)
    rw [List.eq_replicate_of_mem hall, List.reverse_replicate]
  rw [splitFinalPoints, hpoints, ← List.reverse_prefix, List.reverse_reverse]
  exact List.takeWhile_prefix _

theorem takePointed_suffix (p : Char → Bool) (cs : List Char) : (takePointed p cs).2 <:+ cs := by
  obtain ⟨name, hname⟩ := splitFinalPoints_suffix (takeRun (fun c => c == '.' || p c) cs).1
  refine ⟨name, ?_⟩
  simp only [takePointed]
  rw [← List.append_assoc, hname, takeRun, List.takeWhile_append_dropWhile]

theorem localChar_suffix {first : Bool} {cs : List Char} {found : List Char × List Char}
    (h : localChar first cs = some found) : found.2 <:+ cs := by
  unfold localChar at h
  split at h
  · next a b rest =>
      split at h
      · obtain rfl := Option.some.inj h
        exact ⟨['%', a, b], rfl⟩
      · contradiction
  · next c rest =>
      split at h
      · obtain rfl := Option.some.inj h
        exact ⟨['\\', c], rfl⟩
      · contradiction
  · next c rest _ _ =>
      change (if isLocalPlain first c then some ([c], rest) else none) = some found at h
      split at h
      · obtain rfl := Option.some.inj h
        exact List.suffix_cons _ _
      · contradiction
  · contradiction

theorem takeLocalRest_suffix (fuel : Nat) (cs : List Char) : (takeLocalRest fuel cs).2 <:+ cs := by
  induction fuel generalizing cs with
  | zero => exact List.suffix_refl cs
  | succ fuel ih =>
      rw [takeLocalRest_succ]
      cases hstep : localStep cs with
      | none => exact List.suffix_refl cs
      | some found =>
          refine (ih found.2).trans ?_
          rw [localStep, Option.or_eq_some_iff] at hstep
          rcases hstep with hstep | ⟨-, hstep⟩
          · exact localChar_suffix hstep
          · split at hstep
            · contradiction
            · obtain ⟨last, hlast, rfl⟩ := Option.map_eq_some_iff.mp hstep
              exact (localChar_suffix hlast).trans (takeRun_suffix _ _)

theorem takeLocal_suffix (cs : List Char) : (takeLocal cs).2 <:+ cs := by
  rw [takeLocal]
  split
  · next part rest hfirst => exact (takeLocalRest_suffix _ rest).trans (localChar_suffix hfirst)
  · exact List.suffix_refl cs

theorem takeName_suffix {c : Char} {cs rest : List Char} {t : Token}
    (h : takeName (c :: cs) = some (t, rest)) : rest <:+ cs := by
  rcases hname : takePointed isNamePart (c :: cs) with ⟨label, behind⟩
  have hbehind : behind <:+ c :: cs := by
    have hsuffix := takePointed_suffix isNamePart (c :: cs)
    rwa [hname] at hsuffix
  by_cases hcolon : behind.head? = some ':'
  · obtain ⟨more, rfl⟩ := List.head?_eq_some_iff.mp hcolon
    rw [takeName_colon hname] at h
    obtain ⟨-, rfl⟩ := Prod.mk.inj (Option.some.inj h)
    exact (takeLocal_suffix more).trans (suffix_of_cons hbehind)
  · rw [takeName_word hname hcolon, takeWord] at h
    split at h
    · contradiction
    · next hne =>
        obtain ⟨-, rfl⟩ := Prod.mk.inj (Option.some.inj h)
        exact takeRun_suffix_tail hne

theorem takeVar_suffix {cs rest : List Char} {t : Token} (h : takeVar cs = some (t, rest)) :
    rest <:+ cs := by
  unfold takeVar at h
  split at h
  · split at h
    · obtain ⟨-, rfl⟩ := Prod.mk.inj (Option.some.inj h)
      exact List.dropWhile_suffix _
    · contradiction
  · contradiction

theorem takeLabel_suffix {cs rest : List Char} {t : Token} (h : takeLabel cs = some (t, rest)) :
    rest <:+ cs := by
  unfold takeLabel at h
  split at h
  · split at h
    · obtain ⟨-, rfl⟩ := Prod.mk.inj (Option.some.inj h)
      exact (takePointed_suffix _ _).trans (List.suffix_cons _ _)
    · contradiction
  · contradiction

theorem parts_suffix (fuel : Nat) (cs : List Char) : (takeTag.parts fuel cs).2 <:+ cs := by
  induction fuel generalizing cs with
  | zero => exact List.suffix_refl cs
  | succ fuel ih =>
      by_cases hhyphen : cs.head? = some '-'
      · obtain ⟨more, rfl⟩ := List.head?_eq_some_iff.mp hhyphen
        rw [parts_hyphen]
        split
        · exact List.suffix_refl _
        · exact ((ih _).trans (takeRun_suffix _ more)).trans (List.suffix_cons _ _)
      · simp only [parts_other hhyphen, List.suffix_refl]

theorem takeTag_suffix {cs rest : List Char} {t : Token} (h : takeTag cs = some (t, rest)) :
    rest <:+ cs := by
  have hrun := takeRun_suffix Char.isAlpha cs
  unfold takeTag at h
  generalize takeRun Char.isAlpha cs = found at h hrun
  rcases found with ⟨- | ⟨c, head⟩, behind⟩
  · contradiction
  · obtain ⟨-, rfl⟩ := Prod.mk.inj (Option.some.inj h)
    exact (parts_suffix _ _).trans hrun

theorem takePlaces_suffix (cs : List Char) : (takePlaces cs).2 <:+ cs := by
  unfold takePlaces
  split
  · exact (takeRun_suffix _ _).trans (List.suffix_cons _ _)
  · exact List.suffix_refl _

theorem takeExponentSign_suffix (cs : List Char) : (takeExponentSign cs).2 <:+ cs := by
  unfold takeExponentSign
  split
  · exact List.suffix_cons _ _
  · exact List.suffix_cons _ _
  · exact List.suffix_refl _

theorem takeExponent_suffix (cs : List Char) : (takeExponent cs).2 <:+ cs := by
  unfold takeExponent
  split
  · next e rest =>
      split
      · have hsign := takeExponentSign_suffix rest
        generalize takeExponentSign rest = signed at hsign ⊢
        have hrun := takeRun_suffix Char.isDigit signed.2
        simp only
        generalize takeRun Char.isDigit signed.2 = found at hrun ⊢
        rcases found with ⟨- | ⟨d, run⟩, behind⟩
        · exact List.suffix_refl _
        · exact (hrun.trans hsign).trans (List.suffix_cons _ _)
      · exact List.suffix_refl _
  · exact List.suffix_refl _

theorem takeNumber_suffix {c : Char} {cs rest : List Char} {lexical datatype : String}
    (h : takeNumber (c :: cs) = some (lexical, datatype, rest)) : rest <:+ cs := by
  have hwhole := takeRun_suffix Char.isDigit (c :: cs)
  have hdigits : _ → (takeRun Char.isDigit (c :: cs)).2 <:+ cs := takeRun_suffix_tail
  unfold takeNumber at h
  generalize takeRun Char.isDigit (c :: cs) = number at h hwhole hdigits
  obtain ⟨whole, behind⟩ := number
  simp only at h hwhole hdigits
  have hplaces := takePlaces_suffix behind
  have hpoint : behind.head? = some '.' → (takePlaces behind).2 <:+ cs := by
    intro hhead
    obtain ⟨more, rfl⟩ := List.head?_eq_some_iff.mp hhead
    exact (takeRun_suffix Char.isDigit more).trans (suffix_of_cons hwhole)
  generalize takePlaces behind = decimal at h hplaces hpoint
  obtain ⟨places, more⟩ := decimal
  simp only at h hplaces hpoint
  have hexponent := takeExponent_suffix more
  generalize takeExponent more = exponent at h hexponent
  obtain ⟨power, final⟩ := exponent
  simp only at hexponent
  rcases power with - | ⟨e, power⟩
  · simp only at h
    split at h
    · next hpointed =>
        obtain ⟨-, hrest⟩ := Prod.mk.inj (Option.some.inj h)
        obtain rfl := (Prod.mk.inj hrest).2
        simp only [Bool.and_eq_true, beq_iff_eq] at hpointed
        exact hpoint hpointed.1
    · split at h
      · next hne =>
          obtain ⟨-, hrest⟩ := Prod.mk.inj (Option.some.inj h)
          obtain rfl := (Prod.mk.inj hrest).2
          exact hdigits (by simpa using hne)
      · contradiction
  · simp only at h
    split at h
    · next hpointed =>
        obtain ⟨-, hrest⟩ := Prod.mk.inj (Option.some.inj h)
        obtain rfl := (Prod.mk.inj hrest).2
        simp only [Bool.and_eq_true, beq_iff_eq] at hpointed
        exact hexponent.trans (hpoint hpointed.1)
    · split at h
      · next hne =>
          obtain ⟨-, hrest⟩ := Prod.mk.inj (Option.some.inj h)
          obtain rfl := (Prod.mk.inj hrest).2
          simp only [Bool.and_eq_true, Bool.not_eq_true'] at hne
          exact (hexponent.trans hplaces).trans (hdigits (by simp [hne.2]))
      · contradiction

theorem takeSign_suffix {c : Char} {cs rest : List Char} {t : Token}
    (h : takeSign (c :: cs) = some (t, rest)) :
    rest <:+ cs ∧ ∃ s, t = .sign s ∧ ∀ d ∈ s.toList, d ∈ c :: cs := by
  unfold takeSign at h
  simp only at h
  split at h
  · obtain ⟨rfl, rfl⟩ := Prod.mk.inj (Option.some.inj h)
    refine ⟨List.drop_suffix 1 cs, _, rfl, fun d hd => ?_⟩
    rw [String.toList_ofList] at hd
    exact List.mem_of_mem_take hd
  · split at h
    · obtain ⟨rfl, rfl⟩ := Prod.mk.inj (Option.some.inj h)
      exact ⟨List.suffix_refl _, _, rfl, fun d hd => by simp at hd; simp [hd]⟩
    · contradiction

/-! ### Tokens -/

/-- What a token and the text behind it are like. -/
structure Taken (c : Char) (cs : List Char) (t : Token) (rest : List Char) : Prop where
  suffix : rest <:+ cs
  supply : rest.length + t.supply ≤ cs.length + 1
  written : t.Written
  sign : ∀ s, t = .sign s → ∀ d ∈ s.toList, d ∈ c :: cs
  iri : ∀ reference, t = .iri reference → c = '<'

/-- Tokens of which nothing more is said. -/
def IsPlain : Token → Prop
  | .iri _ | .blank _ | .sign _ => False
  | _ => True

variable {c : Char} {cs rest : List Char} {t : Token}

theorem Taken.plain (hrest : rest <:+ cs) (ht : IsPlain t) : Taken c cs t rest := by
  have hlength := hrest.length_le
  cases t with
  | iri _ | blank _ | sign _ => exact ht.elim
  | _ => exact ⟨hrest, Nat.succ_le_succ hlength, trivial, nofun, nofun⟩

theorem taken_takeSign (h : takeSign (c :: cs) = some (t, rest)) : Taken c cs t rest := by
  obtain ⟨hrest, s, rfl, hs⟩ := takeSign_suffix h
  refine ⟨hrest, Nat.succ_le_succ hrest.length_le, trivial, ?_, nofun⟩
  rintro s' hs'
  obtain rfl := Token.sign.inj hs'
  exact hs

theorem plain_takeName (h : takeName cs = some (t, rest)) : IsPlain t := by
  unfold takeName at h
  simp only at h
  split at h
  · obtain ⟨rfl, -⟩ := Prod.mk.inj (Option.some.inj h)
    trivial
  · split at h
    · contradiction
    · obtain ⟨rfl, -⟩ := Prod.mk.inj (Option.some.inj h)
      trivial

theorem plain_takeVar (h : takeVar cs = some (t, rest)) : IsPlain t := by
  unfold takeVar at h
  split at h
  · split at h
    · obtain ⟨rfl, -⟩ := Prod.mk.inj (Option.some.inj h)
      trivial
    · contradiction
  · contradiction

theorem taken_signed {d : Char} (hd : d ∈ c :: cs)
    (h : takeToken.signed [d] cs = some (t, rest)) : Taken c cs t rest := by
  unfold takeToken.signed at h
  split at h
  · obtain ⟨⟨lexical, datatype, more⟩, hnumber, ht⟩ := Option.map_eq_some_iff.mp h
    obtain ⟨rfl, rfl⟩ := Prod.mk.inj ht
    rcases cs with - | ⟨e, cs⟩
    · contradiction
    · exact .plain ((takeNumber_suffix hnumber).trans (List.suffix_cons _ _)) trivial
  · obtain ⟨rfl, rfl⟩ := Prod.mk.inj (Option.some.inj h)
    refine ⟨List.suffix_refl _, Nat.le_refl _, trivial, ?_, nofun⟩
    rintro s hs e he
    obtain rfl := Token.sign.inj hs
    rw [String.toList_ofList] at he
    exact List.mem_singleton.mp he ▸ hd

theorem taken_takeText {q : Char} (hq : q ≠ '\\') (h : takeText q cs = some (t, rest)) :
    Taken c cs t rest := by
  obtain ⟨word, rfl, -, -⟩ := takeText_eq_some hq h
  obtain ⟨s, rfl⟩ := takeText_eq_text h
  exact .plain (List.suffix_append word rest) trivial

theorem taken_takeLabel {d : Char} (h : takeLabel cs = some (t, rest)) :
    Taken c (d :: cs) t rest := by
  have hrest := (takeLabel_suffix h).trans (List.suffix_cons d cs)
  have hlength := hrest.length_le
  unfold takeLabel at h
  split at h
  · split at h
    · next hstart =>
        obtain ⟨rfl, -⟩ := Prod.mk.inj (Option.some.inj h)
        refine ⟨hrest, Nat.succ_le_succ hlength, ?_, nofun, nofun⟩
        rw [Token.Written, String.toList_ofList]
        exact hstart
    · contradiction
  · contradiction

theorem taken_of_takeToken (h : takeToken (c :: cs) = some (t, rest)) : Taken c cs t rest := by
  unfold takeToken at h
  split at h
  · contradiction
  · next more hcs =>
      obtain ⟨rfl, rfl⟩ := List.cons.inj hcs
      rcases hiri : takeIri cs with - | ⟨t', rest'⟩
      · rw [hiri] at h
        exact taken_takeSign h
      · rw [hiri] at h
        obtain ⟨rfl, rfl⟩ := Prod.mk.inj (Option.some.inj h)
        obtain ⟨reference, rfl, rfl, hreference⟩ := takeIri_eq_some hiri
        refine ⟨⟨reference ++ ['>'], by simp⟩, ?_, ?_, nofun, fun _ _ => rfl⟩
        · simp [Token.supply]
          omega
        · intro d hd
          rw [String.toList_ofList] at hd
          exact hreference d hd
  · next more hcs =>
      obtain ⟨rfl, rfl⟩ := List.cons.inj hcs
      exact taken_takeText (by decide) h
  · next more hcs =>
      obtain ⟨rfl, rfl⟩ := List.cons.inj hcs
      exact taken_takeText (by decide) h
  · next more hcs =>
      obtain ⟨rfl, rfl⟩ := List.cons.inj hcs
      rcases hvar : takeVar cs with - | ⟨t', rest'⟩
      · rw [hvar] at h
        exact taken_takeSign h
      · rw [hvar] at h
        obtain ⟨rfl, rfl⟩ := Prod.mk.inj (Option.some.inj h)
        exact .plain (takeVar_suffix hvar) (plain_takeVar hvar)
  · next more hcs =>
      obtain ⟨rfl, rfl⟩ := List.cons.inj hcs
      exact .plain (takeVar_suffix h) (plain_takeVar h)
  · next more hcs =>
      obtain ⟨rfl, rfl⟩ := List.cons.inj hcs
      obtain ⟨s, rfl⟩ := takeTag_eq_tag h
      exact .plain (takeTag_suffix h) trivial
  · next more hcs =>
      obtain ⟨rfl, rfl⟩ := List.cons.inj hcs
      exact taken_takeLabel h
  · next more hcs =>
      obtain ⟨rfl, rfl⟩ := List.cons.inj hcs
      exact .plain (takeName_suffix h) (plain_takeName h)
  · next more hcs =>
      obtain ⟨rfl, rfl⟩ := List.cons.inj hcs
      exact taken_signed List.mem_cons_self h
  · next more hcs =>
      obtain ⟨rfl, rfl⟩ := List.cons.inj hcs
      exact taken_signed List.mem_cons_self h
  · next d more _ _ _ _ _ _ _ _ _ _ hcs =>
      obtain ⟨rfl, rfl⟩ := List.cons.inj hcs
      split at h
      · obtain ⟨⟨lexical, datatype, more⟩, hnumber, ht⟩ := Option.map_eq_some_iff.mp h
        obtain ⟨rfl, rfl⟩ := Prod.mk.inj ht
        exact .plain (takeNumber_suffix hnumber) trivial
      · split at h
        · exact .plain (takeName_suffix h) (plain_takeName h)
        · exact taken_takeSign h

/-- What all tokens of a text are like. -/
structure AllTaken (cs : List Char) (ts : List Token) : Prop where
  supply : Sparql.supply ts ≤ cs.length
  written : ∀ t ∈ ts, t.Written
  sign : ∀ s, .sign s ∈ ts → ∀ d ∈ s.toList, d ∈ cs
  iri : ∀ reference, .iri reference ∈ ts → '<' ∈ cs

theorem skipBlank_suffix (cs : List Char) : skipBlank cs <:+ cs := by
  suffices skipBlank cs <:+ cs ∧ skipBlank.skipComment cs <:+ cs from this.1
  induction cs with
  | nil => exact ⟨List.suffix_refl _, List.suffix_refl _⟩
  | cons c cs ih =>
      constructor
      · unfold skipBlank
        split
        · exact List.nil_suffix
        · next hcs =>
            obtain ⟨-, rfl⟩ := List.cons.inj hcs
            exact ih.2.trans (List.suffix_cons _ _)
        · next hcs =>
            obtain ⟨rfl, rfl⟩ := List.cons.inj hcs
            split
            · exact ih.1.trans (List.suffix_cons _ _)
            · exact List.suffix_refl _
      · unfold skipBlank.skipComment
        split
        · exact List.nil_suffix
        · next hcs =>
            obtain ⟨-, rfl⟩ := List.cons.inj hcs
            exact ih.1.trans (List.suffix_cons _ _)
        · next hcs =>
            obtain ⟨-, rfl⟩ := List.cons.inj hcs
            exact ih.2.trans (List.suffix_cons _ _)

theorem allTaken_of_tokensWithin {fuel : Nat} {cs : List Char} {ts : List Token}
    (h : tokensWithin fuel cs = some ts) : AllTaken cs ts := by
  induction fuel generalizing cs ts with
  | zero => contradiction
  | succ fuel ih =>
      have hskip := skipBlank_suffix cs
      rw [tokensWithin] at h
      generalize skipBlank cs = text at h hskip
      rcases text with - | ⟨c, text⟩
      · obtain rfl := Option.some.inj h
        exact ⟨Nat.zero_le _, by simp, by simp, by simp⟩
      · obtain ⟨⟨t, rest⟩, ht, h⟩ := Option.bind_eq_some_iff.mp h
        obtain ⟨us, hus, h⟩ := Option.bind_eq_some_iff.mp h
        obtain rfl := Option.some.inj h
        have htaken := taken_of_takeToken ht
        have hmore := ih hus
        have hrest : rest <:+ cs := (htaken.suffix.trans (List.suffix_cons _ _)).trans hskip
        have hlength := hskip.length_le
        refine ⟨?_, List.forall_mem_cons.mpr ⟨htaken.written, hmore.written⟩, fun s hs d hd => ?_,
          fun reference hreference => ?_⟩
        · have htoken := htaken.supply
          have hbehind := hmore.supply
          simp only [Sparql.supply, List.length_cons] at hlength ⊢
          omega
        · rcases List.mem_cons.mp hs with hs | hs
          · exact hskip.subset (htaken.sign s hs.symm d hd)
          · exact hrest.subset (hmore.sign s hs d hd)
        · rcases List.mem_cons.mp hreference with hfirst | hreference
          · exact hskip.subset (htaken.iri reference hfirst.symm ▸ List.mem_cons_self)
          · exact hrest.subset (hmore.iri reference hreference)

/-- Where the brackets of a reference are operators, there is no brace among the tokens that they
enclose, and fewer tokens than the reference may turn into stand behind the first one. -/
theorem bracketsAsSigns_eq_some {reference : String} {equals : Bool} {enclosed : List Token}
    (hreference : (Token.iri reference).Written)
    (h : bracketsAsSigns reference equals = some enclosed) :
    ∃ first others, enclosed = first :: others ∧ (∀ t ∈ others, t.Written) ∧
      (∀ t ∈ others, ¬t.IsBrace) ∧ supply others ≤ reference.length + if equals then 2 else 1 := by
  obtain ⟨⟨first, rest⟩, hfirst, h⟩ := Option.bind_eq_some_iff.mp h
  obtain ⟨others, hothers, h⟩ := Option.bind_eq_some_iff.mp h
  obtain rfl := Option.some.inj h
  obtain ⟨hrest, -⟩ := takeSign_suffix hfirst
  have hall := allTaken_of_tokensWithin hothers
  have hchars : ∀ d ∈ rest ++ (if equals then ['>', '='] else ['>']), d ≠ '\x7b' ∧ d ≠ '\x7d' := by
    intro d hd
    rcases List.mem_append.mp hd with hd | hd
    · have hiri : isIriChar d = true := hreference d (hrest.subset hd)
      constructor <;> rintro rfl <;> exact absurd hiri (by decide)
    · cases equals
      · rw [List.mem_singleton.mp hd]
        decide
      · rcases List.mem_cons.mp hd with rfl | hd
        · decide
        · rw [List.mem_singleton.mp hd]
          decide
  refine ⟨first, others, rfl, hall.written, ?_, ?_⟩
  · rintro t ht (rfl | rfl)
    · exact (hchars _ (hall.sign _ ht '\x7b' (by decide))).1 rfl
    · exact (hchars _ (hall.sign _ ht '\x7d' (by decide))).2 rfl
  · have hsupply := hall.supply
    have hlength := hrest.length_le
    rw [List.length_append] at hsupply
    rw [← String.length_toList]
    refine Nat.le_trans hsupply (Nat.add_le_add hlength ?_)
    cases equals <;> decide

end EntityMapping.Sparql.Lexer
