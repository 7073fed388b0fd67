import EntityMapping.Proofs.Sparql.Steps

/-!
The phrases that updates of changes are made of: fixed words, variables, and triples in braces.
-/

namespace EntityMapping.Sparql.Lexer

/-! ### Words -/

/-- A word that is spelled the same before every gap. -/
theorem spells_of_takeToken {word : List Char} {t : Token} {c : Char}
    (hmarks : '\\' ∉ word ∧ '\t' ∉ word) (hhead : word.head? = some c) (hc : Begins c)
    (hend : takeToken word = some (t, []))
    (hgap : ∀ c rest, IsGap c → takeToken (word ++ c :: rest) = some (t, c :: rest)) :
    Spells word [t] := by
  apply spells_token hmarks.1 hmarks.2 hhead hc
  intro rest hrest
  rcases hrest with - | ⟨hgap', rest⟩
  · rw [List.append_nil, hend]
  · exact hgap _ rest hgap'

theorem spells_insert : Spells "INSERT".toList [.word "INSERT"] :=
  spells_of_takeToken (by decide) rfl ⟨by decide, by decide⟩ rfl
    (by rintro c rest (rfl | rfl) <;> rfl)

theorem spells_delete : Spells "DELETE".toList [.word "DELETE"] :=
  spells_of_takeToken (by decide) rfl ⟨by decide, by decide⟩ rfl
    (by rintro c rest (rfl | rfl) <;> rfl)

theorem spells_data : Spells "DATA".toList [.word "DATA"] :=
  spells_of_takeToken (by decide) rfl ⟨by decide, by decide⟩ rfl
    (by rintro c rest (rfl | rfl) <;> rfl)

theorem spells_where : Spells "WHERE".toList [.word "WHERE"] :=
  spells_of_takeToken (by decide) rfl ⟨by decide, by decide⟩ rfl
    (by rintro c rest (rfl | rfl) <;> rfl)

theorem spells_opening : Spells ['\x7b'] [.sign "\x7b"] :=
  spells_of_takeToken (by decide) rfl ⟨by decide, by decide⟩ rfl
    (by rintro c rest (rfl | rfl) <;> rfl)

theorem spells_closing : Spells ['\x7d'] [.sign "\x7d"] :=
  spells_of_takeToken (by decide) rfl ⟨by decide, by decide⟩ rfl
    (by rintro c rest (rfl | rfl) <;> rfl)

theorem spells_point : Spells ['.'] [.sign "."] :=
  spells_of_takeToken (by decide) rfl ⟨by decide, by decide⟩ rfl
    (by rintro c rest (rfl | rfl) <;> rfl)

theorem spells_var {c : Char} {name : List Char} (hstart : (isNameStart c || c.isDigit) = true)
    (hparts : ∀ d ∈ c :: name, isVarPart d = true) :
    Spells ('?' :: c :: name) [.var (String.ofList (c :: name))] := by
  have hmark : ∀ d, isVarPart d = false → d ≠ '?' → d ∉ '?' :: c :: name := by
    intro d hd hquestion hmem
    rcases List.mem_cons.mp hmem with rfl | hmem
    · exact hquestion rfl
    · exact Bool.noConfusion ((hparts d hmem).symm.trans hd)
  refine spells_token (hmark _ (by decide) (by decide)) (hmark _ (by decide) (by decide)) rfl
    ⟨by decide, by decide⟩ fun rest hrest => ?_
  have hrun : takeRun isVarPart (c :: (name ++ rest)) = (c :: name, rest) :=
    takeRun_of_all hparts (hrest.stops rfl rfl)
  have hvar : takeVar (c :: name ++ rest) = some (.var (String.ofList (c :: name)), rest) := by
    rw [List.cons_append]
    simp only [takeVar, hstart, if_true, hrun]
  have htake : takeToken ('?' :: (c :: name ++ rest)) =
      (takeVar (c :: name ++ rest)).or (takeSign ('?' :: (c :: name ++ rest))) := rfl
  rw [List.cons_append, htake, hvar]
  rfl

end EntityMapping.Sparql.Lexer

namespace EntityMapping.Sparql.Grammar

open Sparql.Lexer Sparql.Parser

/-! ### Triples in braces -/

/-- A word that names a subject or a predicate. -/
def Names (env : Prologue) (word : List Char) (t : Term) : Prop :=
  ∃ token, Spells word [token] ∧ Naming env token t

/-- Words that stand for an object. -/
def Says (env : Prologue) (words : List Char) (t : Term) : Prop :=
  ∃ ts, Spells words ts ∧ Reading env ts t

/-- Three words in braces. -/
def block (s p o : List Char) : List Char :=
  '\x7b' :: ' ' :: (s ++ ' ' :: (p ++ ' ' :: (o ++ [' ', '\x7d'])))

/-- Tokens behind an opening brace that are read as one triple, be it in a template or in a
pattern. -/
structure ReadsBlock (env : Prologue) (ts : List Token) (q : TriplePattern) : Prop where
  template : ∀ rest, template env (.sign "\x7b" :: ts ++ rest) = some ([q], rest)
  group : ∀ rest, group env (.sign "\x7b" :: ts ++ rest) = some (⟨none, .bgp [q]⟩, rest)

variable {env : Prologue} {s p o n : List Char} {subject predicate object new : Term}

theorem reads_block (hs : Names env s subject) (hp : Names env p predicate)
    (ho : Says env o object) :
    ∃ ts, Spells (block s p o) (.sign "\x7b" :: ts) ∧
      ReadsBlock env ts (.plain subject predicate object) := by
  obtain ⟨ts, hsword, hsubject⟩ := hs
  obtain ⟨tp, hpword, hpredicate⟩ := hp
  obtain ⟨os, howord, hobject⟩ := ho
  have hspace : IsGap ' ' := Or.inl rfl
  have hinner := hsword.append (hpword.append (howord.append spells_closing hspace) hspace) hspace
  have hall : Spells (block s p o) (.sign "\x7b" :: ts :: tp :: (os ++ [.sign "\x7d"])) :=
    spells_opening.append hinner hspace
  refine ⟨_, hall, ?_, ?_⟩
  · intro rest
    have hread := template_triple hsubject hpredicate hobject rest
    simpa only [List.append_assoc, List.cons_append, List.nil_append] using hread
  · intro rest
    have hread := group_triple hsubject hpredicate hobject rest
    simpa only [List.append_assoc, List.cons_append, List.nil_append] using hread

theorem reads_insertData (hs : Names env s subject) (hp : Names env p predicate)
    (ho : Says env o object) :
    Reads env ("INSERT".toList ++ ' ' :: ("DATA".toList ++ ' ' :: block s p o))
      [.insertData [.plain subject predicate object]] := by
  obtain ⟨ts, hspell, hblock⟩ := reads_block hs hp ho
  have hspace : IsGap ' ' := Or.inl rfl
  refine .one (spells_insert.append (spells_data.append hspell hspace) hspace)
    ⟨Or.inl rfl, fun rest => ?_⟩
  exact updateStep_insertData (hblock.template rest)

theorem reads_deleteData (hs : Names env s subject) (hp : Names env p predicate)
    (ho : Says env o object) :
    Reads env ("DELETE".toList ++ ' ' :: ("DATA".toList ++ ' ' :: block s p o))
      [.deleteData [.plain subject predicate object]] := by
  obtain ⟨ts, hspell, hblock⟩ := reads_block hs hp ho
  have hspace : IsGap ' ' := Or.inl rfl
  refine .one (spells_delete.append (spells_data.append hspell hspace) hspace)
    ⟨Or.inr rfl, fun rest => ?_⟩
  exact updateStep_deleteData (hblock.template rest)

theorem reads_deleteWhere (hs : Names env s subject) (hp : Names env p predicate)
    (ho : Says env o object) :
    Reads env ("DELETE".toList ++ ' ' :: ("WHERE".toList ++ ' ' :: block s p o))
      [.deleteWhere [.plain subject predicate object]] := by
  obtain ⟨ts, hspell, hblock⟩ := reads_block hs hp ho
  have hspace : IsGap ' ' := Or.inl rfl
  refine .one (spells_delete.append (spells_where.append hspell hspace) hspace)
    ⟨Or.inr rfl, fun rest => ?_⟩
  exact updateStep_deleteWhere (hblock.template rest)

/-- A triple that is removed where it is found. -/
theorem reads_remove (hs : Names env s subject) (hp : Names env p predicate)
    (ho : Says env o object) :
    Reads env ("DELETE".toList ++ ' ' :: (block s p o ++ ' ' ::
        ("WHERE".toList ++ ' ' :: block s p o)))
      [.modify [.plain subject predicate object] []
        (.bgp [.plain subject predicate object])] := by
  obtain ⟨ts, hspell, hblock⟩ := reads_block hs hp ho
  have hspace : IsGap ' ' := Or.inl rfl
  refine .one (spells_delete.append (hspell.append (spells_where.append hspell hspace) hspace)
    hspace) ⟨Or.inr rfl, fun rest => ?_⟩
  have hremoved := hblock.template (.word "WHERE" :: .sign "\x7b" :: ts ++ rest)
  have hread := updateStep_remove (by simpa using hremoved) (hblock.group rest)
  simpa only [List.append_assoc, List.cons_append, List.nil_append, GroupPattern.algebra,
    Algebra.filtered] using hread

/-- A triple that takes the place of another where that is found. -/
theorem reads_exchange (hs : Names env s subject) (hp : Names env p predicate)
    (ho : Says env o object) (hn : Says env n new) :
    Reads env ("DELETE".toList ++ ' ' :: (block s p o ++ ' ' :: ("INSERT".toList ++ ' ' ::
        (block s p n ++ ' ' :: ("WHERE".toList ++ ' ' :: block s p o)))))
      [.modify [.plain subject predicate object] [.plain subject predicate new]
        (.bgp [.plain subject predicate object])] := by
  obtain ⟨ts, hold, holdBlock⟩ := reads_block hs hp ho
  obtain ⟨us, hnew, hnewBlock⟩ := reads_block hs hp hn
  have hspace : IsGap ' ' := Or.inl rfl
  refine .one (spells_delete.append (hold.append (spells_insert.append (hnew.append
    (spells_where.append hold hspace) hspace) hspace) hspace) hspace) ⟨Or.inr rfl, fun rest => ?_⟩
  have hremoved := holdBlock.template
    (.word "INSERT" :: .sign "\x7b" :: us ++ .word "WHERE" :: .sign "\x7b" :: ts ++ rest)
  have hadded := hnewBlock.template (.word "WHERE" :: .sign "\x7b" :: ts ++ rest)
  have hread := updateStep_exchange (by simpa using hremoved) (by simpa using hadded)
    (holdBlock.group rest)
  simpa only [List.append_assoc, List.cons_append, List.nil_append, GroupPattern.algebra,
    Algebra.filtered] using hread

end EntityMapping.Sparql.Grammar
