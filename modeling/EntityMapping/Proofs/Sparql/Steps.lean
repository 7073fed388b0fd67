import EntityMapping.Proofs.Sparql.Written
import EntityMapping.Change
import EntityMapping.Sparql.Grammar.Updates

/-!
How updates are read, step by step.

The tokens of a step are read as that step whatever declarations are in force, as long as there is
no base, and whatever stands behind it.  An update is made of the texts of its steps with a
separator between any two.
-/

namespace EntityMapping.Sparql.Grammar

open Sparql.Parser Sparql.Lexer

/-- A token that names a subject or a predicate, and the term it is read as. -/
inductive Naming (env : Prologue) : Token → Term → Prop where
  | iri (reference : String) : Naming env (.iri reference) (.iri (env.resolve reference))
  | var (name : String) : Naming env (.var name) (.var name)

variable {env : Prologue} {s p : Token} {os : List Token} {subject predicate object : Term}

/-- One triple in braces. -/
theorem template_triple (hs : Naming env s subject) (hp : Naming env p predicate)
    (ho : Reading env os object) (rest : List Token) :
    template env (.sign "\x7b" :: s :: p :: os ++ .sign "\x7d" :: rest) =
      some ([.plain subject predicate object], rest) := by
  cases hs <;> cases hp <;> cases ho <;> rfl

/-- One triple in braces as a pattern. -/
theorem group_triple (hs : Naming env s subject) (hp : Naming env p predicate)
    (ho : Reading env os object) (rest : List Token) :
    group env (.sign "\x7b" :: s :: p :: os ++ .sign "\x7d" :: rest) =
      some (⟨none, .bgp [.plain subject predicate object]⟩, rest) := by
  cases hs <;> cases hp <;> cases ho <;> rfl

/-! ### One step -/

theorem toUpper_eq {word : String} (h : word.toList.map Char.toUpper = word.toList) :
    word.toUpper = word := by
  rwa [← String.toList_inj, String.toUpper, String.toList_map]

theorem toUpper_insert : "INSERT".toUpper = "INSERT" := toUpper_eq (by decide)

theorem toUpper_delete : "DELETE".toUpper = "DELETE" := toUpper_eq (by decide)

theorem toUpper_data : "DATA".toUpper = "DATA" := toUpper_eq (by decide)

theorem toUpper_where : "WHERE".toUpper = "WHERE" := toUpper_eq (by decide)

variable {ts us vs rest : List Token} {triples removed added : List TriplePattern}

theorem updateStep_insertData (h : template env ts = some (triples, rest)) :
    updateStep env (.word "INSERT" :: .word "DATA" :: ts) = some (.insertData triples, rest) := by
  simp [updateStep, deleteWhere, deleteData, insertData, toUpper_insert, toUpper_data, h]

theorem updateStep_deleteData (h : template env ts = some (triples, rest)) :
    updateStep env (.word "DELETE" :: .word "DATA" :: ts) = some (.deleteData triples, rest) := by
  simp [updateStep, deleteWhere, deleteData, toUpper_delete, toUpper_data, h]

theorem updateStep_deleteWhere (h : template env ts = some (triples, rest)) :
    updateStep env (.word "DELETE" :: .word "WHERE" :: ts) = some (.deleteWhere triples, rest) := by
  simp [updateStep, deleteWhere, toUpper_delete, toUpper_where, h]

/-- A step that only removes. -/
theorem updateStep_remove {g : GroupPattern}
    (hremoved : template env (.sign "\x7b" :: ts) = some (removed, .word "WHERE" :: us))
    (hpattern : group env us = some (g, rest)) :
    updateStep env (.word "DELETE" :: .sign "\x7b" :: ts) =
      some (.modify removed [] g.algebra, rest) := by
  simp [updateStep, deleteWhere, deleteData, insertData, modify, optionally, keyword,
    toUpper_delete, toUpper_where, hremoved, hpattern]

/-- A step that removes and adds. -/
theorem updateStep_exchange {g : GroupPattern}
    (hremoved : template env (.sign "\x7b" :: ts) = some (removed, .word "INSERT" :: us))
    (hadded : template env us = some (added, .word "WHERE" :: vs))
    (hpattern : group env vs = some (g, rest)) :
    updateStep env (.word "DELETE" :: .sign "\x7b" :: ts) =
      some (.modify removed added g.algebra, rest) := by
  simp [updateStep, deleteWhere, deleteData, insertData, modify, optionally, keyword,
    toUpper_insert, toUpper_delete, toUpper_where, hremoved, hadded, hpattern]

/-! ### Triples with points behind them -/

/-- Triples, each with a point behind it. -/
inductive Sentences (env : Prologue) : List Token → List TriplePattern → Prop where
  | nil : Sentences env [] []
  | cons {s p : Token} {os ts : List Token} {subject predicate object : Term}
      {triples : List TriplePattern} (hs : Naming env s subject) (hp : Naming env p predicate)
      (ho : Reading env os object) (rest : Sentences env ts triples) :
      Sentences env (s :: p :: os ++ .sign "." :: ts) (.plain subject predicate object :: triples)

theorem Sentences.length_le (h : Sentences env ts triples) : triples.length ≤ ts.length := by
  induction h with
  | nil => exact Nat.le_refl 0
  | cons hs hp ho rest ih =>
      simp only [List.length_cons, List.length_append]
      omega

theorem triplesOfSubject_sentence (hs : Naming env s subject) (hp : Naming env p predicate)
    (ho : Reading env os object) (rest : List Token) :
    triplesOfSubject env (Grammar.predicate env) (s :: p :: os ++ .sign "." :: rest) =
      some ([.plain subject predicate object], .sign "." :: rest) := by
  cases hs <;> cases hp <;> cases ho <;> rfl

/-- The sentences behind the first one.  The last point is left, since no triple follows it. -/
theorem manyWithin_sentences (h : Sentences env ts triples) {fuel : Nat}
    (hfuel : triples.length ≤ fuel) (rest : List Token) :
    manyWithin fuel (do sign "."; triplesOfSubject env (Grammar.predicate env))
        (.sign "." :: ts ++ .sign "\x7d" :: rest) =
      some (triples.map ([·]), .sign "." :: .sign "\x7d" :: rest) := by
  induction h generalizing fuel with
  | nil => cases fuel <;> rfl
  | cons hs hp ho more ih =>
      obtain ⟨n, rfl⟩ := Nat.exists_eq_succ_of_ne_zero
        (Nat.ne_of_gt (Nat.lt_of_lt_of_le (Nat.succ_pos _) hfuel))
      have hmore := ih (Nat.le_of_succ_le_succ hfuel)
      have hfirst := triplesOfSubject_sentence hs hp ho
      simp only [List.append_assoc, List.cons_append] at hfirst hmore ⊢
      simp [manyWithin, hfirst, hmore]

theorem many_sentences (h : Sentences env ts triples) (rest : List Token) :
    many (do sign "."; triplesOfSubject env (Grammar.predicate env))
        (.sign "." :: ts ++ .sign "\x7d" :: rest) =
      some (triples.map ([·]), .sign "." :: .sign "\x7d" :: rest) := by
  refine manyWithin_sentences h (h.length_le.trans (.trans ?_ (length_le_supply _))) rest
  simp only [List.cons_append, List.length_cons, List.length_append]
  omega

theorem template_sentences (h : Sentences env ts triples) (rest : List Token) :
    template env (.sign "\x7b" :: ts ++ .sign "\x7d" :: rest) = some (triples, rest) := by
  cases h with
  | nil => rfl
  | cons hs hp ho more =>
      have hfirst := triplesOfSubject_sentence hs hp ho
      have hothers := many_sentences more rest
      simp only [List.append_assoc, List.cons_append] at hfirst hothers ⊢
      simp [template, between, triplesBlock, optionally, hfirst, hothers, ← List.flatMap_def]

/-! ### Whole updates -/

/-- Tokens that are read as one step, whatever stands behind them. -/
structure ReadsStep (env : Prologue) (ts : List Token) (step : UpdateStep) : Prop where
  head : ts.head? = some (.word "INSERT") ∨ ts.head? = some (.word "DELETE")
  read : ∀ rest, updateStep env (ts ++ rest) = some (step, rest)

/-- No step begins with a declaration. -/
theorem ReadsStep.prologue_eq {ts : List Token} {step : UpdateStep} (h : ReadsStep env ts step)
    (rest : List Token) : prologue env (ts ++ rest) = some (env, ts ++ rest) := by
  have hword : ∀ w : String, w.toUpper ≠ "BASE" → w.toUpper ≠ "PREFIX" → ∀ us,
      prologue env (.word w :: us) = some (env, .word w :: us) := by
    intro w hbase hprefix us
    simp [prologue, remaining, prologueWithin, declaration, optionally, hbase, hprefix]
  rcases h.head with h | h
  · obtain ⟨us, rfl⟩ := List.head?_eq_some_iff.mp h
    exact hword _ (by rw [toUpper_insert]; decide) (by rw [toUpper_insert]; decide) _
  · obtain ⟨us, rfl⟩ := List.head?_eq_some_iff.mp h
    exact hword _ (by rw [toUpper_delete]; decide) (by rw [toUpper_delete]; decide) _

/-- Texts that are read as an update: those of its steps with separators between them. -/
inductive Reads (env : Prologue) : List Char → Update → Prop where
  | one {cs : List Char} {ts : List Token} {step : UpdateStep} (hspell : Spells cs ts)
      (hread : ReadsStep env ts step) : Reads env cs [step]
  | more {cs ds : List Char} {ts : List Token} {step : UpdateStep} {steps : Update}
      (hspell : Spells cs ts) (hread : ReadsStep env ts step) (rest : Reads env ds steps) :
      Reads env (cs ++ Change.separator.toList ++ ds) (step :: steps)

theorem Reads.append {cs ds : List Char} {steps others : Update} (h : Reads env cs steps)
    (hothers : Reads env ds others) :
    Reads env (cs ++ Change.separator.toList ++ ds) (steps ++ others) := by
  induction h with
  | one hspell hread => exact .more hspell hread hothers
  | more hspell hread rest ih =>
      have hall := Reads.more hspell hread ih
      simpa only [List.append_assoc, List.cons_append] using hall

theorem spells_semicolon : Spells [';'] [.sign ";"] := by
  apply spells_token (by decide) (by decide) rfl ⟨by decide, by decide⟩
  intro rest hrest
  rcases hrest with - | ⟨rfl | rfl, rest⟩ <;> rfl

theorem ReadsStep.length_pos {step : UpdateStep} (h : ReadsStep env ts step) : 0 < ts.length := by
  rcases h.head with h | h
  · obtain ⟨us, rfl⟩ := List.head?_eq_some_iff.mp h
    exact Nat.succ_pos _
  · obtain ⟨us, rfl⟩ := List.head?_eq_some_iff.mp h
    exact Nat.succ_pos _

/-- The tokens of an update, which are read as its steps. -/
theorem Reads.tokens {cs : List Char} {steps : Update} (h : Reads env cs steps) :
    ∃ ts, Spells cs ts ∧ steps.length ≤ ts.length ∧
      ∀ fuel, steps.length ≤ fuel → stepsWithin fuel env ts = some (steps, []) := by
  induction h with
  | @one cs ts step hspell hread =>
      refine ⟨ts, hspell, hread.length_pos, fun fuel hfuel => ?_⟩
      obtain ⟨n, rfl⟩ := Nat.exists_eq_succ_of_ne_zero (Nat.ne_of_gt hfuel)
      have hprologue := hread.prologue_eq []
      have hstep := hread.read []
      rw [List.append_nil] at hprologue hstep
      have hend : sign ";" [] = none := rfl
      simp [stepsWithin, optionally, hprologue, hstep, hend]
  | @more cs ds ts step steps hspell hread rest ih =>
      obtain ⟨us, hus, hlength, hsteps⟩ := ih
      have hbehind := spells_semicolon.append hus (Or.inr rfl : IsGap '\n')
      have hall := hspell.append hbehind (Or.inl rfl : IsGap ' ')
      refine ⟨ts ++ .sign ";" :: us, ?_, ?_, fun fuel hfuel => ?_⟩
      · have htext : Change.separator.toList = [' ', ';', '\n'] := rfl
        rw [htext, List.append_assoc]
        exact hall
      · simp only [List.length_cons, List.length_append]
        omega
      · obtain ⟨n, rfl⟩ := Nat.exists_eq_succ_of_ne_zero
          (Nat.ne_of_gt (Nat.lt_of_lt_of_le (Nat.succ_pos _) hfuel))
        have hprologue := hread.prologue_eq (.sign ";" :: us)
        have hstep := hread.read (.sign ";" :: us)
        have hmore := hsteps n (Nat.le_of_succ_le_succ hfuel)
        simp [stepsWithin, optionally, hprologue, hstep, hmore]

theorem Reads.ne_nil {cs : List Char} {steps : Update} (h : Reads env cs steps) : steps ≠ [] := by
  cases h <;> exact List.cons_ne_nil _ _

/-- Such a text is an update of exactly these steps. -/
theorem Reads.read_eq {cs : List Char} {steps : Update} (h : Reads env cs steps) :
    Update.read env (String.ofList cs) = some steps := by
  obtain ⟨ts, hspell, hlength, hsteps⟩ := h.tokens
  have hread := hsteps (ts.length + 1) (Nat.le_succ_of_le hlength)
  have hne := h.ne_nil
  rw [Update.read, tokens_eq_some hspell]
  simp only [Option.bind_eq_bind, Option.bind_some, parseAll, Grammar.update, remaining,
    bind_apply, hread]
  rcases steps with - | ⟨step, steps⟩
  · exact absurd rfl hne
  · rfl

end EntityMapping.Sparql.Grammar
