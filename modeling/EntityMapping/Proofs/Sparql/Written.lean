import EntityMapping.Proofs.Sparql.Literals
import EntityMapping.Sparql.Grammar.Terms
import EntityMapping.Template

/-!
Terms as they are written in requests, and as they are read again.

An IRI that may stand in brackets is one token.  A literal reads back when its written form is cut
into tokens that are read as the same literal, at whatever column of a request it stands; a literal
with a tab in it, for one, does not.
-/

namespace EntityMapping

/-- An IRI that templates accept and that may stand in brackets in a request. -/
def ValidIri (s : String) : Prop :=
  checkIri s = .ok (.iri s) ∧ ∀ c ∈ s.toList, Sparql.Lexer.isIriChar c = true

theorem validIri_of_all {s : String} (hcheck : checkIri s = .ok (.iri s))
    (hall : s.toList.all Sparql.Lexer.isIriChar = true) : ValidIri s :=
  ⟨hcheck, List.all_eq_true.mp hall⟩

namespace Sparql.Lexer

/-- The tokens of a text with nothing between them and nothing behind them.  Each takes at least one
character, so the length of the text is enough fuel. -/
def adjacentTokens : (fuel : Nat) → List Char → Option (List Token)
  | _, [] => some []
  | 0, _ :: _ => none
  | fuel + 1, cs => do
    let (token, rest) ← takeToken cs
    return token :: (← adjacentTokens fuel rest)

/-- The tokens of a text that are the same at every column. -/
def WrittenAs (cs : List Char) (ts : List Token) : Prop :=
  ∃ ds, expanded cs = some ds ∧ ∀ column,
    adjacentTokens (expandTabs column ds).length (expandTabs column ds) = some ts

end Sparql.Lexer

/-- A literal whose written form is read as the same literal wherever it stands. -/
def Literal.ReadsBack (l : Literal) : Prop :=
  ∃ ts read, Sparql.Lexer.WrittenAs l.n3.toList ts ∧
    (Sparql.Grammar.literal ⟨none, []⟩).parseAll ts = some read ∧ read.same l = true

open Sparql.Lexer in
/-- Without tabs the column makes no difference. -/
theorem Literal.readsBack_of_no_tab {l read : Literal} {ds : List Char} {ts : List Sparql.Token}
    (hexpanded : expanded l.n3.toList = some ds) (htab : '\t' ∉ ds)
    (hcut : adjacentTokens ds.length ds = some ts)
    (hread : (Sparql.Grammar.literal ⟨none, []⟩).parseAll ts = some read)
    (hsame : read.same l = true) : l.ReadsBack := by
  refine ⟨ts, read, ⟨ds, hexpanded, fun column => ?_⟩, hread, hsame⟩
  rw [expandTabs_of_no_tab htab, hcut]

namespace Term

/-- A term that may be bound to a slot and that is read as the same term again. -/
def Writable : Term → Prop
  | .iri s => ValidIri s
  | .literal l => l.ReadsBack
  | .blank _ => False
  | .var _ => False

end Term

namespace Sparql.Lexer

/-! ### IRIs -/

/-- What may stand in brackets is one token there. -/
theorem spells_reference {s : String} (h : ∀ c ∈ s.toList, isIriChar c = true) :
    Spells (Term.iri s).n3.toList [.iri s] := by
  have htext : (Term.iri s).n3.toList = '<' :: (s.toList ++ ['>']) := by simp [Term.n3]
  have hmark : ∀ c, isIriChar c = false → c ≠ '<' → c ≠ '>' → c ∉ '<' :: (s.toList ++ ['>']) := by
    intro c hc hopening hclosing hmem
    simp only [List.mem_cons, List.mem_append, List.not_mem_nil, or_false] at hmem
    rcases hmem with rfl | hmem | rfl
    · exact hopening rfl
    · exact Bool.noConfusion ((h c hmem).symm.trans hc)
    · exact hclosing rfl
  rw [htext]
  refine spells_token (c := '<') (hmark _ (by decide) (by decide) (by decide))
    (hmark _ (by decide) (by decide) (by decide)) rfl ⟨by decide, by decide⟩ fun rest _ => ?_
  rw [List.cons_append, List.append_assoc, List.singleton_append, takeToken_iri h]

theorem spells_iri {s : String} (h : ValidIri s) : Spells (Term.iri s).n3.toList [.iri s] :=
  spells_reference h.2

/-! ### Literals -/

theorem adjacentTokens_cons {fuel : Nat} {cs : List Char} {t : Token} {us : List Token}
    (h : adjacentTokens fuel cs = some (t :: us)) :
    ∃ rest n, takeToken cs = some (t, rest) ∧ adjacentTokens n rest = some us := by
  rcases cs with - | ⟨c, cs⟩
  · cases fuel <;> simp [adjacentTokens] at h
  · cases fuel with
    | zero => simp [adjacentTokens] at h
    | succ n =>
        simp only [adjacentTokens, Option.bind_eq_bind, Option.bind_eq_some_iff] at h
        obtain ⟨⟨t', rest⟩, ht, us', hus, hts⟩ := h
        obtain ⟨rfl, rfl⟩ := List.cons.inj (Option.some.inj hts)
        exact ⟨rest, n, ht, hus⟩

theorem adjacentTokens_nil {fuel : Nat} {cs : List Char}
    (h : adjacentTokens fuel cs = some []) : cs = [] := by
  rcases cs with - | ⟨c, cs⟩
  · rfl
  · cases fuel with
    | zero => simp [adjacentTokens] at h
    | succ n =>
        simp only [adjacentTokens, Option.bind_eq_bind, Option.bind_eq_some_iff] at h
        obtain ⟨found, -, us, -, hts⟩ := h
        exact absurd (Option.some.inj hts) (by simp)

end Sparql.Lexer

namespace Sparql.Grammar

open Sparql.Parser

/-- No sign but the datatype mark continues a literal. -/
theorem literal_plain (env : Prologue) (s : String) {mark : String} (hmark : mark ≠ "^^")
    (us : List Token) :
    literal env (.text s :: .sign mark :: us) = some (Literal.plain s, .sign mark :: us) := by
  simp [literal, textLiteral, text, tag, hmark]

/-- A text is read as a literal with what stands behind it: nothing, a tag or a datatype. -/
theorem literal_parseAll {s : String} {us : List Token} {read : Literal}
    (h : (literal ⟨none, []⟩).parseAll (.text s :: us) = some read) :
    (us = [] ∧ read = Literal.plain s) ∨ (∃ t, us = [.tag t] ∧ read = Literal.tagged s t) ∨
      ∃ d, us = [.sign "^^", .iri d] ∧ read = Literal.typed s d := by
  have hplain : ∀ {t vs}, us = t :: vs →
      literal ⟨none, []⟩ (.text s :: us) = some (Literal.plain s, us) → False := by
    rintro t vs rfl hread
    rw [parseAll, hread] at h
    contradiction
  rcases us with - | ⟨t, us⟩
  · exact Or.inl ⟨rfl, (Option.some.inj h).symm⟩
  · cases t with
    | tag t =>
        have hread : (literal ⟨none, []⟩) (.text s :: .tag t :: us) =
            some (Literal.tagged s t, us) := rfl
        rw [parseAll, hread] at h
        cases us with
        | nil => exact Or.inr (Or.inl ⟨t, rfl, (Option.some.inj h).symm⟩)
        | cons u us => contradiction
    | sign mark =>
        by_cases hmark : mark = "^^"
        · subst hmark
          rcases us with - | ⟨u, us⟩
          · exact (hplain rfl rfl).elim
          · cases u with
            | iri d =>
                have hread : (literal ⟨none, []⟩) (.text s :: .sign "^^" :: .iri d :: us) =
                    some (Literal.typed s (Iri.resolve none d), us) := rfl
                rw [Iri.resolve_none] at hread
                rw [parseAll, hread] at h
                cases us with
                | nil => exact Or.inr (Or.inr ⟨d, rfl, (Option.some.inj h).symm⟩)
                | cons u us => contradiction
            | _ => exact (hplain rfl rfl).elim
        · exact (hplain rfl (literal_plain _ s hmark us)).elim
    | _ => exact (hplain rfl rfl).elim

/-- The tokens of a term in a request, and the term that they are read as. -/
inductive Reading (env : Prologue) : List Token → Term → Prop where
  | iri (reference : String) : Reading env [.iri reference] (.iri (env.resolve reference))
  | var (name : String) : Reading env [.var name] (.var name)
  | plain (s : String) : Reading env [.text s] (.literal (Literal.plain s))
  | tagged (s tag : String) : Reading env [.text s, .tag tag] (.literal (Literal.tagged s tag))
  | typed (s datatype : String) : Reading env [.text s, .sign "^^", .iri datatype]
      (.literal (Literal.typed s (env.resolve datatype)))

theorem resolve_of_base {env : Prologue} (h : env.base = none) (reference : String) :
    env.resolve reference = reference := by
  rw [Prologue.resolve, h, Iri.resolve_none]

end Sparql.Grammar

namespace Sparql.Lexer

open Sparql.Grammar

/-- The tokens of a written literal, in front of a gap. -/
theorem cuts_literal {s : String} {us vs : List Token} {fuel : Nat} {cs tail : List Char}
    {read : Literal} (h : adjacentTokens fuel ('"' :: cs) = some (.text s :: us))
    (hread : (literal ⟨none, []⟩).parseAll (.text s :: us) = some read)
    (htail : Detached tail) (hvs : Cuts tail vs) :
    Cuts ('"' :: cs ++ tail) (.text s :: us ++ vs) := by
  have hlonger : ∀ {n m : Nat}, n ≤ m → n + tail.length ≤ m + tail.length := fun h =>
    Nat.add_le_add_right h _
  obtain ⟨rest, n, ht, hrest⟩ := adjacentTokens_cons h
  have htext := takeText_append (by decide) ht (htail.head?_ne (by decide) (by decide))
  have hlength := Nat.le_of_lt (takeText_length (by decide) ht)
  refine cuts_token ⟨by decide, by decide⟩ (by simpa using hlonger hlength) htext ?_
  rcases literal_parseAll hread with ⟨rfl, -⟩ | ⟨tag, rfl, -⟩ | ⟨d, rfl, -⟩
  · obtain rfl := adjacentTokens_nil hrest
    exact hvs
  · obtain ⟨behind, m, htag, hbehind⟩ := adjacentTokens_cons hrest
    obtain rfl := adjacentTokens_nil hbehind
    obtain ⟨more, rfl, hmore⟩ := scanned_of_takeToken htag
    have htag := takeTag_append (htail.stops (p := isTagPart) (by decide) (by decide)) more
    rw [hmore] at htag
    exact cuts_token ⟨by decide, by decide⟩ (by simp) htag hvs
  · obtain ⟨middle, m, hsign, hmiddle⟩ := adjacentTokens_cons hrest
    obtain ⟨behind, k, hiri, hbehind⟩ := adjacentTokens_cons hmiddle
    obtain rfl := adjacentTokens_nil hbehind
    obtain rfl := scanned_of_takeToken hsign rfl
    obtain ⟨more, rfl, hmore⟩ := scanned_of_takeToken hiri
    have hiri := takeIri_append hmore tail
    have hmark : takeToken ('^' :: '^' :: '<' :: more ++ tail) =
        some (.sign "^^", '<' :: more ++ tail) := rfl
    apply cuts_token ⟨by decide, by decide⟩ (by simp) hmark
    refine cuts_token ⟨by decide, by decide⟩ (by simp) ?_ hvs
    change (takeIri (more ++ tail)).or _ = _
    rw [hiri]
    rfl

theorem spells_literal {l : Literal} (h : l.ReadsBack) {env : Prologue} (hbase : env.base = none) :
    ∃ ts read, Spells l.n3.toList ts ∧ Reading env ts (.literal read) ∧ read.same l = true := by
  obtain ⟨ts, read, ⟨ds, hds, hcut⟩, hread, hsame⟩ := h
  obtain ⟨cs, hcs⟩ := l.n3_eq_quote
  obtain ⟨es, rfl⟩ : ∃ es, ds = '"' :: es := by
    rw [hcs, expanded, List.length_cons, expandCodePoints_plain (Or.inl (by decide)),
      Option.map_eq_some_iff] at hds
    obtain ⟨es, -, hes⟩ := hds
    exact ⟨es, hes.symm⟩
  have hquote : ∀ column, ∃ next, expandTabs column ('"' :: es) = '"' :: expandTabs next es :=
    fun column => ⟨column + 1, rfl⟩
  obtain ⟨s, us, rfl⟩ : ∃ s us, ts = .text s :: us := by
    obtain ⟨next, hnext⟩ := hquote 0
    have hfirst := hcut 0
    rw [hnext] at hfirst
    rcases ts with - | ⟨t, us⟩
    · exact absurd (adjacentTokens_nil hfirst) (by simp)
    · obtain ⟨rest, n, ht, -⟩ := adjacentTokens_cons hfirst
      obtain ⟨s, rfl⟩ := takeText_eq_text ht
      exact ⟨s, us, rfl⟩
  refine ⟨.text s :: us, read, ⟨_, hds, fun column rest vs hrest hvs => ?_⟩, ?_, hsame⟩
  · obtain ⟨next, hnext⟩ := hquote column
    have hfirst := hcut column
    rw [hnext] at hfirst ⊢
    exact cuts_literal hfirst hread hrest hvs
  · rcases literal_parseAll hread with ⟨rfl, rfl⟩ | ⟨tag, rfl, rfl⟩ | ⟨d, rfl, rfl⟩
    · exact .plain s
    · exact .tagged s tag
    · have htyped := @Reading.typed env s d
      rwa [resolve_of_base hbase] at htyped

/-- What may be bound to a slot is spelled by tokens that are read as the same term. -/
theorem spells_writable {t : Term} (h : t.Writable) {env : Prologue} (hbase : env.base = none) :
    ∃ ts read, Spells t.n3.toList ts ∧ Reading env ts read ∧ read.same t = true := by
  cases t with
  | iri s =>
      have hread := @Reading.iri env s
      rw [resolve_of_base hbase] at hread
      exact ⟨_, _, spells_iri h, hread, Term.same_refl _⟩
  | literal l =>
      obtain ⟨ts, read, hspell, hread, hsame⟩ := spells_literal h hbase
      exact ⟨ts, _, hspell, hread, hsame⟩
  | blank label => exact h.elim
  | var name => exact h.elim

end Sparql.Lexer

end EntityMapping
