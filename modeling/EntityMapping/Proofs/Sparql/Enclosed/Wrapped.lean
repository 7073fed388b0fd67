import EntityMapping.Proofs.Sparql.Enclosed.Selections
import EntityMapping.Proofs.Sparql.Nesting
import EntityMapping.Proofs.Sparql.Phrases

/-!
Selections of everything that a nested selection gives.
-/

namespace EntityMapping.Sparql

/-- The query for everything that a pattern mentions. -/
def Query.ofAll (body : Algebra) : Query :=
  let names := Algebra.distinctNames body.mentioned
  .select (.project body names) names

/-! ### Repetitions -/

namespace Parser

variable {α : Type} {p : Parser α} {ts us vs : List Token} {a : α} {as : List α}

/-- The results that a parser gives one after the other until it fails. -/
inductive Repeats (p : Parser α) : List Token → List α → List Token → Prop where
  | stop {ts : List Token} (h : p ts = none) : Repeats p ts [] ts
  | step {ts us vs : List Token} {a : α} {as : List α} (h : p ts = some (a, us))
      (rest : Repeats p us as vs) : Repeats p ts (a :: as) vs

theorem Repeats.manyWithin (h : Repeats p ts as vs) {fuel : Nat} (hfuel : as.length ≤ fuel) :
    manyWithin fuel p ts = some (as, vs) := by
  induction h generalizing fuel with
  | stop h => exact manyWithin_none h fuel
  | step h rest ih =>
      obtain ⟨fuel, rfl⟩ := Nat.exists_eq_succ_of_ne_zero
        (Nat.ne_of_gt (Nat.lt_of_lt_of_le (Nat.succ_pos _) hfuel))
      rw [manyWithin_some h, ih (Nat.le_of_succ_le_succ hfuel)]
      rfl

theorem Repeats.many (h : Repeats p ts as vs) (hlength : as.length ≤ ts.length) :
    many p ts = some (as, vs) :=
  h.manyWithin (Nat.le_trans hlength (length_le_supply ts))

theorem eq_some_of_parseAll (h : p.parseAll ts = some a) : p ts = some (a, []) := by
  unfold parseAll at h
  split at h
  · next hp => rw [hp, Option.some.inj h]
  · contradiction

end Parser

namespace Grammar

open Sparql.Parser

variable {env : Prologue} {ts us : List Token} {fuel : Nat}

/-! ### Groups of parts -/

theorem varOrTerm_word {w : String} (hw : w.toUpper ≠ "TRUE" ∧ w.toUpper ≠ "FALSE") :
    varOrTerm env (.word w :: ts) = none := by
  simp [varOrTerm, graphTerm, var, iri, literal, textLiteral, text, number, truthValue, blank,
    emptyList, sign, hw.1, hw.2]

theorem varOrTerm_sign {s : String} (hs : s ≠ "(" ∧ s ≠ "[") :
    varOrTerm env (.sign s :: ts) = none := by
  simp [varOrTerm, graphTerm, var, iri, literal, textLiteral, text, number, truthValue, blank,
    emptyList, keyword, hs.1, hs.2]

/-- No triples begin where neither a term nor a bracket stands. -/
theorem triplesBlock_none {t : Token} (hterm : varOrTerm env (t :: ts) = none)
    (ht : t ≠ .sign "(" ∧ t ≠ .sign "[") :
    triplesBlock env (pathOrVar env) (t :: ts) = none := by
  have hrich : ∀ fuel, richNodeWithin env (pathOrVar env) (fuel + 1) (t :: ts) = none := by
    intro fuel
    have hlist : ∀ p : Parser (List (Term × List TriplePattern)),
        between "(" ")" p (t :: ts) = none := between_other (by simpa using ht.1) ")"
    have hnode : ∀ p : Parser (List TriplePattern), between "[" "]" p (t :: ts) = none :=
      between_other (by simpa using ht.2) "]"
    simp [richNodeWithin, remaining, freshBlank, hlist, hnode]
  have hsubject : triplesOfSubject env (pathOrVar env) (t :: ts) = none := by
    simp [triplesOfSubject, supplied, hterm, hrich]
  rw [triplesBlock, bind_apply, hsubject]
  rfl

/-- Nothing but a part of a group can stand here, if anything. -/
structure BetweenParts (env : Prologue) (ts : List Token) : Prop where
  triples : triplesBlock env (pathOrVar env) ts = none
  point : ts.head? ≠ some (.sign ".")
  union : ∀ w, ts.head? = some (.word w) → w.toUpper ≠ "UNION"

theorem betweenParts_word {w : String}
    (hw : w.toUpper ≠ "TRUE" ∧ w.toUpper ≠ "FALSE" ∧ w.toUpper ≠ "UNION") :
    BetweenParts env (.word w :: ts) where
  triples := triplesBlock_none (varOrTerm_word ⟨hw.1, hw.2.1⟩) (by simp)
  point := by simp
  union v hv := by
    obtain rfl := Token.word.inj (Option.some.inj hv)
    exact hw.2.2

theorem betweenParts_sign {s : String} (hs : s ≠ "(" ∧ s ≠ "[" ∧ s ≠ ".") :
    BetweenParts env (.sign s :: ts) where
  triples := triplesBlock_none (varOrTerm_sign ⟨hs.1, hs.2.1⟩) (by simp [hs.1, hs.2.1])
  point := by simpa using hs.2.2
  union := nofun

/-- The triples at the start of a part of a group, if there are some. -/
def groupBlock (env : Prologue) : Parser (List GroupPart) := do
  return (← optionally (triplesBlock env (pathOrVar env))).toList.map .triples

/-- A part of a group and the triples behind it. -/
def groupStep (env : Prologue) (fuel : Nat) : Parser (List GroupPart) := do
  let part ← partWithin env fuel
  let _ ← optionally (sign ".")
  return part :: (← groupBlock env)

theorem BetweenParts.groupBlock_eq (h : BetweenParts env ts) :
    groupBlock env ts = some ([], ts) := by
  simp [groupBlock, optionally, h.triples]

theorem BetweenParts.groupStep_eq {part : GroupPart} (h : BetweenParts env us)
    (hpart : partWithin env fuel ts = some (part, us)) :
    groupStep env fuel ts = some ([part], us) := by
  have hpoint : sign "." us = none := by
    refine Option.eq_none_iff_forall_ne_some.mpr fun found hfound => h.point ?_
    rw [eq_cons_of_sign hfound]
    rfl
  simp [groupStep, optionally, hpart, hpoint, h.groupBlock_eq]

/-- A group of parts without triples between them. -/
theorem groupWithin_parts {parts : List (List GroupPart)} (hfirst : BetweenParts env ts)
    (hselection : selectionWithin env fuel ts = none)
    (hparts : Repeats (groupStep env fuel) ts parts (.sign "\x7d" :: us))
    (hlength : parts.length ≤ ts.length) :
    groupWithin env (fuel + 1) (.sign "\x7b" :: ts) = some (.ofParts parts.flatten, us) := by
  have hgroup : groupWithin env (fuel + 1) = between "\x7b" "\x7d" (
      (do return .ofAlgebra (.subSelect (← selectionWithin env fuel).1)) <|>
      (do
        let first ← groupBlock env
        let others ← many (groupStep env fuel)
        return .ofParts (first ++ others.flatten))) := by
    rw [groupWithin]
    rfl
  rw [hgroup, between_sign, orElse_apply, bind_apply, hselection]
  simp [hfirst.groupBlock_eq, hparts.many hlength]

/-! ### Parts -/

/-- A condition, with fuel enough for it. -/
def constraint (env : Prologue) : Parser Expr := do
  constraintWithin env (← nestingFuel)

theorem constraint_eq (ts : List Token) :
    constraint env ts = constraintWithin env (12 * supply ts + 24) ts :=
  rfl

theorem toUpper_values : "VALUES".toUpper = "VALUES" := toUpper_eq (by decide)

theorem toUpper_filter : "FILTER".toUpper = "FILTER" := toUpper_eq (by decide)

theorem toUpper_select : "SELECT".toUpper = "SELECT" := toUpper_eq (by decide)

theorem groupWithin_other {t : Token} (ht : t ≠ .sign "\x7b") :
    groupWithin env fuel (t :: ts) = none := by
  cases fuel with
  | zero => rw [groupWithin]; rfl
  | succ fuel =>
      rw [groupWithin]
      exact between_other (by simpa using ht) "\x7d" _

/-- A closing brace is no part. -/
theorem partWithin_closing : partWithin env fuel (.sign "\x7d" :: ts) = none := by
  cases fuel with
  | zero => rw [partWithin]; rfl
  | succ fuel =>
      rw [partWithin]
      simp [groupWithin_other, keyword]

theorem partWithin_values {p : Algebra} (h : dataBlock env ts = some (p, us)) :
    partWithin env (fuel + 1) (.word "VALUES" :: ts) = some (.joined p, us) := by
  rw [partWithin]
  simp [groupWithin_other, toUpper_values, h]

theorem partWithin_filter {e : Expr} (h : constraintWithin env fuel ts = some (e, us)) :
    partWithin env (fuel + 1) (.word "FILTER" :: ts) = some (.condition e, us) := by
  rw [partWithin]
  simp [groupWithin_other, toUpper_filter, h]

theorem partWithin_nested {p : Algebra} {names : List String}
    (h : selectionWithin env fuel ts = some ((p, names), .sign "\x7d" :: us))
    (hus : BetweenParts env us) :
    partWithin env (fuel + 2) (.sign "\x7b" :: ts) = some (.joined (.subSelect p), us) := by
  have hgroup : groupWithin env (fuel + 1) (.sign "\x7b" :: ts) =
      some (.ofAlgebra (.subSelect p), us) := by
    rw [groupWithin, between_sign]
    simp [h]
  have hunion : keyword "UNION" us = none := by
    rcases us with - | ⟨t, us⟩
    · rfl
    · cases t with
      | word w => simp [hus.union w rfl]
      | _ => rfl
  have hothers : many (do keyword "UNION"; groupWithin env (fuel + 1)) us = some ([], us) :=
    manyWithin_none (by simp [hunion]) _
  rw [partWithin]
  simp [hgroup, hothers, GroupPattern.ofAlgebra, GroupPattern.algebra, Algebra.filtered]

/-! ### Selections of everything -/

theorem columnsWithin_all : columnsWithin env (fuel + 1) (.sign "*" :: ts) = some (none, ts) := by
  have hnamed : between "(" ")" (namedWithin env fuel) (.sign "*" :: ts) = none :=
    between_other (by simp) ")" _
  rw [columnsWithin]
  simp [atLeastOne, var, hnamed]

theorem modifiersWithin_nil :
    modifiersWithin env (fuel + 1) [] = some (⟨[], [], [], none, none, none⟩, []) := by
  rw [modifiersWithin]
  rfl

theorem selectQuery_all {g : GroupPattern}
    (h : ∀ fuel, 12 * supply ts ≤ fuel → groupWithin env fuel ts = some (g, [])) :
    selectQuery env (.word "SELECT" :: .sign "*" :: .word "WHERE" :: ts) =
      some (.ofAll g.algebra, []) := by
  have hselect : keyword "SELECT" (.word "SELECT" :: .sign "*" :: .word "WHERE" :: ts) =
      some ((), .sign "*" :: .word "WHERE" :: ts) := by
    simp [toUpper_select]
  have hrepetition : repetition (.sign "*" :: .word "WHERE" :: ts) =
      some (none, .sign "*" :: .word "WHERE" :: ts) := rfl
  have hgraphs : many (datasetClause env) (.word "WHERE" :: ts) = some ([], .word "WHERE" :: ts) :=
    manyWithin_none (by simp [datasetClause, toUpper_where]) _
  have hwhere : optionally (keyword "WHERE") (.word "WHERE" :: ts) = some (some (), ts) := by
    simp [optionally, toUpper_where]
  have hvalues : optionally (do keyword "VALUES"; dataBlock env) [] = some (none, []) := rfl
  exact bind_eq_some.mpr ⟨_, _, rfl, bind_eq_some.mpr ⟨_, _, hselect,
    bind_eq_some.mpr ⟨_, _, hrepetition, bind_eq_some.mpr ⟨_, _, columnsWithin_all,
      bind_eq_some.mpr ⟨_, _, hgraphs, bind_eq_some.mpr ⟨_, _, hwhere,
        bind_eq_some.mpr ⟨_, _, h _ (by simp only [supply]; omega),
          bind_eq_some.mpr ⟨_, _, modifiersWithin_nil, bind_eq_some.mpr ⟨_, _, hvalues, rfl⟩⟩⟩⟩⟩⟩⟩⟩⟩

/-! ### Selections around a nested one -/

/-- A nested selection between braces, with what stands in front of it and behind it. -/
def wrapping (first nested last : List Token) : List Token :=
  .word "SELECT" :: .sign "*" :: .word "WHERE" :: .sign "\x7b" ::
    (first ++ .sign "\x7b" :: (nested ++ .sign "\x7d" :: (last ++ [.sign "\x7d"])))

variable {nested : List Token} {p : Algebra} {names : List String}

/-- A nested selection as a part of a group. -/
theorem partWithin_selection (hnested : ∀ t ∈ nested, t.Written)
    (hgraph : askedGraph env nested = none)
    (h : selectQuery env nested = some (.select p names, [])) (hus : BetweenParts env us)
    (hfuel : 12 * supply nested + 3 ≤ fuel) :
    partWithin env fuel (.sign "\x7b" :: (nested ++ .sign "\x7d" :: us)) =
      some (.joined (.subSelect (p.relabel (moveLabel (us.length + 1)))), us) := by
  obtain ⟨fuel, rfl⟩ := Nat.exists_eq_add_of_le' (show 2 ≤ fuel by omega)
  exact partWithin_nested (selectionWithin_enclosed hnested hgraph h (by omega) us) hus

theorem selectionWithin_other (h : keyword "SELECT" ts = none) :
    selectionWithin env fuel ts = none := by
  cases fuel with
  | zero => rw [selectionWithin]; rfl
  | succ fuel =>
      rw [selectionWithin, bind_apply, h]
      rfl

/-- Inline data of one IRI for one variable. -/
theorem dataBlock_single (name reference : String) :
    dataBlock env (.var name :: .sign "\x7b" :: .iri reference :: .sign "\x7d" :: ts) =
      some (.values [name] [[some (.iri (env.resolve reference))]], ts) := by
  have hstop : Repeats (dataValue env) (.sign "\x7d" :: ts) [] (.sign "\x7d" :: ts) :=
    .stop (by simp [dataValue, keyword, iri, literal, textLiteral, text, number, truthValue])
  have hvalue : dataValue env (.iri reference :: .sign "\x7d" :: ts) =
      some (some (.iri (env.resolve reference)), .sign "\x7d" :: ts) := by
    simp [dataValue, keyword, iri]
  have hvalues := (Repeats.step hvalue hstop).many (by simp)
  simp [dataBlock, var, between_sign, hvalues]

/-- A selection of everything from a group of parts. -/
theorem selectQuery_parts (parts : List (List GroupPart)) (hfirst : BetweenParts env ts)
    (hselection : ∀ fuel, selectionWithin env fuel ts = none)
    (hparts : ∀ fuel, 12 * supply ts ≤ fuel →
      Repeats (groupStep env fuel) ts parts [.sign "\x7d"]) (hlength : parts.length ≤ ts.length) :
    selectQuery env (.word "SELECT" :: .sign "*" :: .word "WHERE" :: .sign "\x7b" :: ts) =
      some (.ofAll (GroupPattern.ofParts parts.flatten).algebra, []) := by
  refine selectQuery_all fun fuel hfuel => ?_
  have hsupply : supply (.sign "\x7b" :: ts) = supply ts + 1 := rfl
  obtain ⟨fuel, rfl⟩ := Nat.exists_eq_add_of_le' (show 1 ≤ fuel by omega)
  exact groupWithin_parts hfirst (hselection fuel) (hparts fuel (by omega)) hlength

theorem groupStep_closing : groupStep env fuel [.sign "\x7d"] = none := by
  rw [groupStep, bind_apply, partWithin_closing]
  rfl

/-- Everything that a nested selection says about an IRI. -/
theorem selectQuery_about (hnested : ∀ t ∈ nested, t.Written)
    (hgraph : askedGraph env nested = none)
    (h : selectQuery env nested = some (.select p names, [])) (name reference : String) :
    selectQuery env (wrapping [.word "VALUES", .var name, .sign "\x7b", .iri reference,
        .sign "\x7d"] nested []) =
      some ((p.relabel (moveLabel 2)).about name (env.resolve reference), []) := by
  refine selectQuery_parts [[.joined (.values [name] [[some (.iri (env.resolve reference))]])],
    [.joined (.subSelect (p.relabel (moveLabel 2)))]]
      (betweenParts_word (by rw [toUpper_values]; decide))
      (fun fuel => selectionWithin_other (by simp [toUpper_values])) (fun fuel hfuel => ?_) (by simp)
  have hsupply : 12 * supply nested + 3 ≤ fuel := by
    simp only [List.cons_append, supply, supply_append, Token.supply] at hfuel
    omega
  obtain ⟨more, rfl⟩ := Nat.exists_eq_add_of_le' (show 1 ≤ fuel by omega)
  have hbehind : BetweenParts env (.sign "\x7b" :: (nested ++ [.sign "\x7d", .sign "\x7d"])) :=
    betweenParts_sign (by decide)
  have hclosing : BetweenParts env [.sign "\x7d"] := betweenParts_sign (by decide)
  exact .step (hbehind.groupStep_eq (partWithin_values (dataBlock_single name reference)))
    (.step (hclosing.groupStep_eq (partWithin_selection hnested hgraph h hclosing hsupply))
      (.stop groupStep_closing))

/-- A condition that stands in front of a closing brace. -/
theorem constraintWithin_enclosed {condition : List Token} {e : Expr}
    (hcondition : ∀ t ∈ condition, t.Written)
    (hread : (constraint env).parseAll condition = some e)
    (hfuel : 12 * supply condition + 3 ≤ fuel) :
    constraintWithin env fuel (condition ++ [.sign "\x7d"]) = some (e, [.sign "\x7d"]) := by
  have hread := eq_some_of_parseAll hread
  rw [constraint_eq] at hread
  have hall : GroupsAgree (.of []) env (12 * supply condition + 24) := groups_agree _
  have hagree := hall.constraint (supply condition) fuel (by omega) hfuel condition
    (Nat.le_refl _) hcondition
  have hclosed : unopened condition = some 0 := (hagree.takes _ _ hread).1.symm
  have hnested := hagree.reads (by simp [hclosed])
  rw [hread] at hnested
  exact hnested

/-- Everything that a nested selection says where a condition holds. -/
theorem selectQuery_chosen (hnested : ∀ t ∈ nested, t.Written)
    (hgraph : askedGraph env nested = none)
    (h : selectQuery env nested = some (.select p names, [])) {condition : List Token} {e : Expr}
    (hcondition : ∀ t ∈ condition, t.Written)
    (hread : (constraint env).parseAll condition = some e) :
    selectQuery env (wrapping [] nested (.word "FILTER" :: condition)) =
      some (.ofAll (.filtered (Expr.groupCondition [e])
        (.subSelect (p.relabel (moveLabel (condition.length + 3))))), []) := by
  refine selectQuery_parts [[.joined (.subSelect (p.relabel
    (moveLabel (condition.length + 3))))], [.condition e]] (betweenParts_sign (by decide))
      (fun fuel => selectionWithin_other rfl) (fun fuel hfuel => ?_) (by simp; omega)
  have hsupply : 12 * supply nested + 3 ≤ fuel ∧ 12 * supply condition + 4 ≤ fuel := by
    simp only [List.cons_append, List.nil_append, supply, supply_append, Token.supply] at hfuel
    omega
  obtain ⟨more, rfl⟩ := Nat.exists_eq_add_of_le' (show 1 ≤ fuel by omega)
  have hfilter : BetweenParts env (.word "FILTER" :: (condition ++ [.sign "\x7d"])) :=
    betweenParts_word (by rw [toUpper_filter]; decide)
  have hclosing : BetweenParts env [.sign "\x7d"] := betweenParts_sign (by decide)
  have hpart := partWithin_selection hnested hgraph h hfilter hsupply.1
  have hlength : (Token.word "FILTER" :: (condition ++ [.sign "\x7d"])).length + 1 =
      condition.length + 3 := by simp
  rw [hlength] at hpart
  have hconstraint : constraintWithin env more (condition ++ [.sign "\x7d"]) = _ :=
    constraintWithin_enclosed hcondition hread (by omega)
  exact .step (hfilter.groupStep_eq hpart)
    (.step (hclosing.groupStep_eq (partWithin_filter hconstraint)) (.stop groupStep_closing))

end Grammar

end EntityMapping.Sparql
