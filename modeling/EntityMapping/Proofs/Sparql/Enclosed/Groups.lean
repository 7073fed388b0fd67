import EntityMapping.Proofs.Sparql.Enclosed.Triples
import EntityMapping.Proofs.Sparql.Scanning

/-!
Expressions, groups and nested selections in front of a closing brace.
-/

namespace EntityMapping.Sparql.Grammar

open Sparql.Parser Sparql.Enclosure

variable {F : Enclosure} {env : Prologue} {n : Nat}

/-! ### Without nesting -/

theorem oneOf_agree {signs : List String} (h : "\x7b" ∉ signs ∧ "\x7d" ∉ signs) :
    F.Agree n 1 id (oneOf signs) (oneOf signs) := by
  refine .satisfy ?_ fun _ _ _ _ => rfl
  rintro t (rfl | rfl)
  · simp [h.1]
  · simp [h.2]

theorem natural_agree : F.Agree n 1 id natural natural :=
  .satisfy (by rintro t (rfl | rfl) <;> rfl) fun _ _ _ _ => rfl

/-- The comparison that the first bracket of a reference is.  What it encloses is put back. -/
def bracketSign (reference : String) (equals : Bool) : Parser String := fun ts =>
  (Lexer.bracketsAsSigns reference equals).bind fun enclosed => oneOf comparisons (enclosed ++ ts)

/-- A comparison that begins with a reference. -/
def referenceSign : Parser String := do
  let reference ← satisfy fun
    | .iri reference => some reference
    | _ => none
  let last ← optionally (sign "=")
  let enclosed ← StateT.lift (Lexer.bracketsAsSigns reference last.isSome)
  modify (enclosed ++ ·)
  oneOf comparisons

theorem referenceSign_equals (reference : String) (ts : List Token) :
    referenceSign (.iri reference :: .sign "=" :: ts) = bracketSign reference true ts := by
  have h : referenceSign (.iri reference :: .sign "=" :: ts) =
      ((Lexer.bracketsAsSigns reference true).bind fun enclosed => some (enclosed, ts)).bind
        fun found => oneOf comparisons (found.1 ++ found.2) := rfl
  rw [h, bracketSign]
  cases Lexer.bracketsAsSigns reference true <;> rfl

theorem referenceSign_other {ts : List Token} (hts : ts.head? ≠ some (.sign "="))
    (reference : String) :
    referenceSign (.iri reference :: ts) = bracketSign reference false ts := by
  have hlast : optionally (sign "=") ts = some (none, ts) := by
    have hnone : sign "=" ts = none := by
      refine Option.eq_none_iff_forall_ne_some.mpr fun found hfound => hts ?_
      rw [eq_cons_of_sign hfound]
      rfl
    simp only [optionally, hnone]
  have h : referenceSign (.iri reference :: ts) =
      (optionally (sign "=") ts).bind fun last =>
        ((Lexer.bracketsAsSigns reference last.1.isSome).bind fun enclosed =>
          some (enclosed, last.2)).bind fun found => oneOf comparisons (found.1 ++ found.2) := rfl
  rw [h, hlast, bracketSign]
  change ((Lexer.bracketsAsSigns reference false).bind _).bind _ = _
  cases Lexer.bracketsAsSigns reference false <;> rfl

/-- What a first bracket encloses holds no brace, and is less than the reference may turn into. -/
theorem bracketSign_agree {reference : String} (hreference : (Token.iri reference).Written)
    {ts : List Token} (hts : ∀ t ∈ ts, t.Written) (equals : Bool) :
    (∀ s rest, bracketSign reference equals ts = some (s, rest) →
      unopened rest = unopened ts ∧ (∀ t ∈ rest, t.Written) ∧
        supply rest ≤ supply ts + reference.length + if equals then 2 else 1) ∧
    bracketSign reference equals (ts ++ F.behind) =
      (bracketSign reference equals ts).map fun (s, rest) => (s, rest ++ F.behind) := by
  unfold bracketSign
  cases henclosed : Lexer.bracketsAsSigns reference equals with
  | none => simp
  | some enclosed =>
      obtain ⟨first, others, rfl, hwritten, hbraces, hsupply⟩ :=
        Lexer.bracketsAsSigns_eq_some hreference henclosed
      have hunopened : unopened (others ++ ts) = unopened ts := by
        clear hsupply hwritten henclosed
        induction others with
        | nil => rfl
        | cons t others ih =>
            obtain ⟨ht, hothers⟩ := List.forall_mem_cons.mp hbraces
            rw [List.cons_append, unopened_cons ht, ih hothers]
      simp only [Option.bind_some, List.cons_append, oneOf, satisfy_cons]
      constructor
      · intro s rest hs
        obtain ⟨s', -, hpair⟩ := Option.map_eq_some_iff.mp hs
        obtain ⟨-, rfl⟩ := Prod.mk.inj hpair
        refine ⟨hunopened, fun t ht => (List.mem_append.mp ht).elim (hwritten t) (hts t), ?_⟩
        rw [supply_append]
        omega
      · rw [Option.map_map, ← List.append_assoc]
        rfl

theorem referenceSign_agree : F.Agree n 1 id referenceSign referenceSign := by
  rintro (- | ⟨t, ts⟩) hn hts
  · exact ⟨fun s rest hs => by contradiction, fun _ => rfl⟩
  · cases t with
    | iri reference =>
        obtain ⟨hreference, hts⟩ := List.forall_mem_cons.mp hts
        by_cases hequals : ts.head? = some (.sign "=")
        · obtain ⟨us, rfl⟩ := List.head?_eq_some_iff.mp hequals
          obtain ⟨htakes, hreads⟩ := bracketSign_agree (F := F) hreference
            (List.forall_mem_cons.mp hts).2 true
          refine ⟨fun s rest hs => ?_, fun _ => ?_⟩
          · rw [referenceSign_equals] at hs
            obtain ⟨hbraces, hwritten, hsupply⟩ := htakes s rest hs
            rw [unopened_cons (by simp [Token.IsBrace]), unopened_cons (by decide)]
            refine ⟨hbraces, hwritten, ?_⟩
            simp only [supply, Token.supply, if_true] at hsupply ⊢
            omega
          · rw [referenceSign_equals]
            exact (referenceSign_equals reference _).trans hreads
        · obtain ⟨htakes, hreads⟩ := bracketSign_agree (F := F) hreference hts false
          have hbehind : (ts ++ F.behind).head? ≠ some (.sign "=") := by
            cases ts with
            | nil => simp [behind]
            | cons t ts => exact hequals
          refine ⟨fun s rest hs => ?_, fun _ => ?_⟩
          · rw [referenceSign_other hequals] at hs
            obtain ⟨hbraces, hwritten, hsupply⟩ := htakes s rest hs
            rw [unopened_cons (by simp [Token.IsBrace])]
            refine ⟨hbraces, hwritten, ?_⟩
            simp only [supply, Token.supply, Bool.false_eq_true, if_false] at hsupply ⊢
            omega
          · rw [referenceSign_other hequals]
            exact (referenceSign_other hbehind reference).trans hreads
    | _ => exact ⟨fun s rest hs => by contradiction, fun _ => rfl⟩

theorem comparisonSign_agree : F.Agree n 1 id comparisonSign comparisonSign :=
  .orElse referenceSign_agree (oneOf_agree (by decide))

theorem dataBlock_agree :
    F.Agree n 1 (Algebra.relabel F.rename) (dataBlock env) (dataBlock env) := by
  have hvalue : ∀ n, F.Agree n 1 id (dataValue env) (dataValue env) := fun n =>
    .orElse (.bind (.keyword _) fun _ _ => .pure rfl)
      (.orElse (.bind iri_agree fun _ _ => .pure rfl) (.bind literal_agree fun _ _ => .pure rfl))
  exact .orElse (.bind var_agree fun _ _ => .after (.lax (.braces fun _ => .many_id (hvalue _)))
    fun _ => .pure rfl) (.bind (.between (by decide) (by decide) fun _ => .many_id var_agree)
      fun _ _ => .after (.lax (.braces fun _ => .many_id (.between (by decide) (by decide) fun _ =>
        .many_id (hvalue _)))) fun _ => .pure rfl)

theorem limitOffset_agree : F.Agree n 0 id limitOffset limitOffset := by
  have hnumber : ∀ n word, F.Agree n 1 id (do keyword word; natural) (do keyword word; natural) :=
    fun n word => .bind (.keyword word) fun _ _ => natural_agree.lax
  exact .orElse (.lax (.bind (hnumber n _) fun _ _ => .after (.optionally_id (hnumber _ _))
    fun _ => .pure rfl)) (.orElse (.lax (.bind (hnumber n _) fun _ _ =>
      .after (.optionally_id (hnumber _ _)) fun _ => .pure rfl)) (.pure rfl))

theorem repetition_agree : F.Agree n 0 id repetition repetition :=
  .optionally_id (.orElse (.bind (.keyword _) fun _ _ => .pure rfl)
    (.bind (.keyword _) fun _ _ => .pure rfl))

theorem upperWord_agree : F.Agree n 1 id upperWord upperWord :=
  .satisfy (by rintro t (rfl | rfl) <;> rfl) fun _ _ _ _ => rfl

theorem aggregated_agree {name : String} {p q : Parser Expr} (h : F.Agree n 1 id p q) :
    F.Agree n 0 id (aggregated name p) (aggregated name q) := by
  have hone : F.Agree n 1 id (do return [← p] : Parser (List Expr)) (do return [← q]) :=
    .bind h fun _ _ => .pure rfl
  unfold aggregated
  split
  · exact .lax (.orElse (.bind (.sign (by decide)) fun _ _ => .pure rfl) hone)
  · split
    · exact .lax (.bind hone fun _ _ => .after (.optionally_id (.bind (.sign (by decide)) fun _ _ =>
        .after (.lax (.keyword _)) fun _ => .after (.lax (.sign (by decide))) fun _ =>
          text_agree.lax)) fun _ => .pure rfl)
    · split
      · exact hone.lax
      · exact .failure

/-! ### With nesting -/

/-- All parsers of expressions and groups, with fuel. -/
structure GroupsAgree (F : Enclosure) (env : Prologue) (fuel : Nat) : Prop where
  expression : F.AgreeFrom 12 9 id (expressionWithin env) fuel
  conjunction : F.AgreeFrom 12 8 id (conjunctionWithin env) fuel
  comparison : F.AgreeFrom 12 7 id (comparisonWithin env) fuel
  list : F.AgreeFrom 12 1 id (expressionListWithin env) fuel
  sum : F.AgreeFrom 12 6 id (sumWithin env) fuel
  product : F.AgreeFrom 12 5 id (productWithin env) fuel
  unary : F.AgreeFrom 12 4 id (unaryWithin env) fuel
  primary : F.AgreeFrom 12 3 id (primaryWithin env) fuel
  function : F.AgreeFrom 12 1 id (functionWithin env) fuel
  builtIn : F.AgreeFrom 12 2 id (builtInWithin env) fuel
  aggregate : F.AgreeFrom 12 1 id (aggregateWithin env) fuel
  constraint : F.AgreeFrom 12 3 id (constraintWithin env) fuel
  group : F.AgreeFrom 12 1 (GroupPattern.relabel F.rename) (groupWithin env) fuel
  part : F.AgreeFrom 12 2 (GroupPart.relabel F.rename) (partWithin env) fuel
  named : F.AgreeFrom 12 10 id (namedWithin env) fuel
  columns : F.AgreeFrom 12 1 id (columnsWithin env) fuel
  modifiers : ∀ n fuel', 12 * n + 1 ≤ fuel → 12 * n + 1 ≤ fuel' →
    F.Agree n 0 id (modifiersWithin env fuel) (modifiersWithin env fuel')
  selection : F.AgreeFrom 12 1 (fun found => (found.1.relabel F.rename, found.2))
    (selectionWithin env) fuel

variable {fuel m : Nat}

namespace GroupsAgree

variable (ih : GroupsAgree F env fuel)

include ih

theorem expression_succ : F.AgreeFrom 12 9 id (expressionWithin env) (fuel + 1) := by
  refine .succ fun n m hn hm => ?_
  rw [expressionWithin, expressionWithin]
  exact .bind (.separated_id (by decide) (ih.conjunction n m hn hm)) fun _ _ => .pure rfl

theorem conjunction_succ : F.AgreeFrom 12 8 id (conjunctionWithin env) (fuel + 1) := by
  refine .succ fun n m hn hm => ?_
  rw [conjunctionWithin, conjunctionWithin]
  exact .bind (.separated_id (by decide) (ih.comparison n m hn hm)) fun _ _ => .pure rfl

theorem comparison_succ : F.AgreeFrom 12 7 id (comparisonWithin env) (fuel + 1) := by
  refine .succ fun n m hn hm => ?_
  rw [comparisonWithin, comparisonWithin]
  have hlist : ∀ k, k < n → F.Agree k 0 id (expressionListWithin env fuel)
      (expressionListWithin env m) := fun k hk => (ih.list k m (by omega) (by omega)).lax
  refine .bind (ih.sum n m hn hm) fun hpos left => .orElse (.lax (.bind comparisonSign_agree
    fun _ operator => .after ((ih.sum n m hn hm).mono (by omega)).lax fun _ => .pure rfl))
    (.orElse (.lax (.bind (.keyword _) fun _ _ => .after (hlist _ (by omega)) fun _ => .pure rfl))
      (.orElse (.lax (.bind (.keyword _) fun _ _ => .after (.lax (.keyword _)) fun _ =>
        .after (hlist _ (by omega)) fun _ => .pure rfl)) (.pure rfl)))

theorem list_succ : F.AgreeFrom 12 1 id (expressionListWithin env) (fuel + 1) := by
  refine .succ fun n m hn hm => ?_
  rw [expressionListWithin, expressionListWithin]
  exact .orElse (.bind (.sign (by decide)) fun _ _ => .after (.lax (.sign (by decide))) fun _ =>
    .pure rfl) (.between (by decide) (by decide) fun _ => .lax (.separated_id (by decide)
      (ih.expression (n - 1) m (by omega) (by omega))))

theorem product_succ : F.AgreeFrom 12 5 id (productWithin env) (fuel + 1) := by
  refine .succ fun n m hn hm => ?_
  rw [productWithin, productWithin]
  exact .bind (ih.unary n m hn hm) fun _ first => .after (.many_id (.bind (oneOf_agree (by decide))
    fun _ operator => .after ((ih.unary n m hn hm).mono (by omega)).lax fun _ => .pure rfl))
    fun others => .pure rfl

theorem sum_succ : F.AgreeFrom 12 6 id (sumWithin env) (fuel + 1) := by
  refine .succ fun n m hn hm => ?_
  rw [sumWithin, sumWithin]
  have hsigned : ∀ n, F.Agree n 1 id signedNumber signedNumber := fun n =>
    .satisfy (by rintro t (rfl | rfl) <;> rfl) fun _ _ _ _ => rfl
  exact .bind (ih.product n m hn hm) fun _ first => .after (.many_id (.orElse
    (.bind (oneOf_agree (by decide)) fun _ operator =>
      .after ((ih.product n m hn hm).mono (by omega)).lax fun _ => .pure rfl)
    (.bind (hsigned _) fun _ number => .after (.many_id (.bind (oneOf_agree (by decide))
      fun _ operator => .after (ih.unary (n - 1 - 1 - 1) m (by omega) (by omega)).lax fun _ =>
        .pure rfl)) fun factors => .pure rfl))) fun others => .pure rfl

theorem unary_succ : F.AgreeFrom 12 4 id (unaryWithin env) (fuel + 1) := by
  refine .succ fun n m hn hm => ?_
  rw [unaryWithin, unaryWithin]
  exact .orElse (.bind (oneOf_agree (by decide)) fun _ _ =>
    .after ((ih.primary n m hn hm).mono (by omega)).lax fun _ => .pure rfl) (ih.primary n m hn hm)

theorem parenthesised (hn : 12 * n ≤ fuel) (hm : 12 * n ≤ m) :
    F.Agree n 1 id (between "(" ")" (expressionWithin env fuel))
      (between "(" ")" (expressionWithin env m)) :=
  .between (by decide) (by decide) fun _ => (ih.expression (n - 1) m (by omega) (by omega)).lax

theorem primary_succ : F.AgreeFrom 12 3 id (primaryWithin env) (fuel + 1) := by
  refine .succ fun n m hn hm => ?_
  rw [primaryWithin, primaryWithin]
  exact .orElse (ih.parenthesised (by omega) (by omega)) (.orElse (ih.builtIn n m hn hm)
    (.orElse (ih.function n m (by omega) (by omega)) (.orElse
      (.bind iri_agree fun _ _ => .pure rfl) (.orElse (.bind literal_agree fun _ _ => .pure rfl)
        (.bind var_agree fun _ _ => .pure rfl)))))

theorem function_succ : F.AgreeFrom 12 1 id (functionWithin env) (fuel + 1) := by
  refine .succ fun n m hn hm => ?_
  rw [functionWithin, functionWithin]
  exact .bind iri_agree fun _ name => .lax (.orElse
    (.bind (.sign (by decide)) fun _ _ => .after (.lax (.sign (by decide))) fun _ => .pure rfl)
    (.bind (.between (by decide) (by decide) fun _ => .after (.optionally_id (.keyword _)) fun _ =>
      .lax (.separated_id (by decide) (ih.expression (n - 1 - 1) m (by omega) (by omega))))
      fun _ arguments => .pure rfl))

theorem builtIn_succ : F.AgreeFrom 12 2 id (builtInWithin env) (fuel + 1) := by
  refine .succ fun n m hn hm => ?_
  rw [builtInWithin, builtInWithin]
  refine .orElse (.after (.optionally_id (.keyword _)) fun negated => .bind (.keyword _) fun _ _ =>
      .after (ih.group (n - 1) m (by omega) (by omega)).lax fun g => .pure ?_)
    (.orElse (.bind (.keyword _) fun _ _ => .after (.lax (.between (by decide) (by decide)
      fun _ => var_agree.lax)) fun _ => .pure rfl)
    (.orElse (ih.aggregate n m hn hm) (.bind upperWord_agree fun _ name => ?_)))
  · rw [GroupPattern.algebra_relabel, Algebra.mentioned_relabel]
    rfl
  · dsimp only [id]
    cases builtIns.lookup name with
    | none => exact .failure
    | some arity =>
        refine .after (ih.list (n - 1) m (by omega) (by omega)).lax fun arguments => ?_
        dsimp only [id]
        split
        · exact .pure rfl
        · exact .failure

theorem aggregate_succ : F.AgreeFrom 12 1 id (aggregateWithin env) (fuel + 1) := by
  refine .succ fun n m hn hm => ?_
  rw [aggregateWithin, aggregateWithin]
  refine .bind upperWord_agree fun _ name => .after (.lax (.sign (by decide))) fun _ =>
    .after (.optionally_id (.keyword _)) fun distinct =>
      .after (aggregated_agree (ih.expression (n - 1) m (by omega) (by omega))) fun _ =>
        .after (.lax (.sign (by decide))) fun _ => .pure rfl

theorem constraint_succ : F.AgreeFrom 12 3 id (constraintWithin env) (fuel + 1) := by
  refine .succ fun n m hn hm => ?_
  rw [constraintWithin, constraintWithin]
  exact .orElse (ih.parenthesised (by omega) (by omega)) (.orElse (ih.builtIn n m hn hm)
    (ih.function n m (by omega) (by omega)))

theorem group_succ :
    F.AgreeFrom 12 1 (GroupPattern.relabel F.rename) (groupWithin env) (fuel + 1) := by
  refine .succ fun n m hn hm => ?_
  rw [groupWithin, groupWithin]
  have hblock : ∀ n, F.Agree n 0 (List.map (GroupPart.relabel F.rename))
      (do return (← optionally (triplesBlock env (pathOrVar env))).toList.map GroupPart.triples)
      (do return (← optionally (triplesBlock env (pathOrVar env))).toList.map GroupPart.triples) :=
    fun n => .after (.optionally (triplesBlock_agree fun _ => pathOrVar_agree)) fun triples =>
      .pure (by cases triples <;> rfl)
  refine .braces fun _ => .orElse (.lax (.bind (ih.selection (n - 1) m (by omega) (by omega))
    fun _ _ => .pure rfl)) (.after (hblock _) fun first => .after (.many (.bind
      (ih.part (n - 1) m (by omega) (by omega)) fun _ part => .after (.optionally_id
        (.sign (by decide))) fun _ => .after (hblock _) fun block => .pure
          (List.map_cons ..).symm)) fun others => .pure ?_)
  rw [← List.map_flatten, ← List.map_append, GroupPattern.ofParts_relabel]

theorem part_succ :
    F.AgreeFrom 12 2 (GroupPart.relabel F.rename) (partWithin env) (fuel + 1) := by
  refine .succ fun n m hn hm => ?_
  rw [partWithin, partWithin]
  have hgroup : ∀ k, k ≤ n → F.Agree k 1 (GroupPattern.relabel F.rename) (groupWithin env fuel)
      (groupWithin env m) := fun k hk => ih.group k m (by omega) (by omega)
  refine .orElse (.bind (hgroup n (by omega)) fun _ first => .after (.many (.bind (.keyword _)
      fun _ _ => .lax (hgroup _ (by omega)))) fun others => .pure ?_)
    (.orElse (.bind (.keyword _) fun _ _ => .after (.lax (hgroup _ (by omega))) fun _ => .pure rfl)
    (.orElse (.bind (.keyword _) fun _ _ => .after (.lax (hgroup _ (by omega))) fun _ => .pure rfl)
    (.orElse (.bind (.keyword _) fun _ _ => .after varOrIri_agree.lax fun name =>
      .after (.lax (hgroup _ (by omega))) fun g => .pure ?_)
    (.orElse (.bind (.keyword _) fun _ _ => .after (.optionally_id (.keyword _)) fun _ =>
      .after varOrIri_agree.lax fun name =>
        .after (.lax (hgroup _ (by omega))) fun g => .pure ?_)
    (.orElse (.bind (.keyword _) fun _ _ =>
      .after (ih.constraint (n - 1) m (by omega) (by omega)).lax fun _ => .pure rfl)
    (.orElse (.bind (.keyword _) fun _ _ => .after (.lax (.between (by decide) (by decide) fun _ =>
      (ih.named (n - 1 - 1) m (by omega) (by omega)).lax)) fun _ => .pure rfl)
    (.bind (.keyword _) fun _ _ => .after dataBlock_agree.lax fun _ => .pure rfl)))))))
  · rw [GroupPattern.algebra_relabel, List.foldl_map]
    refine congrArg GroupPart.joined (Algebra.foldl_relabel (fun p g => ?_) others first.algebra)
    rw [GroupPattern.algebra_relabel]
    rfl
  · rw [GroupPattern.algebra_relabel]
    rfl
  · rw [GroupPattern.algebra_relabel]
    rfl

theorem named_succ : F.AgreeFrom 12 10 id (namedWithin env) (fuel + 1) := by
  refine .succ fun n m hn hm => ?_
  rw [namedWithin, namedWithin]
  exact .bind (ih.expression n m hn hm) fun _ _ => .after (.lax (.keyword _)) fun _ =>
    .after var_agree.lax fun _ => .pure rfl

theorem columns_succ : F.AgreeFrom 12 1 id (columnsWithin env) (fuel + 1) := by
  refine .succ fun n m hn hm => ?_
  rw [columnsWithin, columnsWithin]
  exact .orElse (.bind (.atLeastOne_id (.orElse (.bind var_agree fun _ _ => .pure rfl)
    (.bind (.between (by decide) (by decide) fun _ =>
      (ih.named (n - 1) m (by omega) (by omega)).lax) fun _ _ => .pure rfl))) fun _ _ => .pure rfl)
    (.bind (.sign (by decide)) fun _ _ => .pure rfl)

theorem modifiers_succ (n fuel' : Nat) (hn : 12 * n + 1 ≤ fuel + 1) (hm : 12 * n + 1 ≤ fuel') :
    F.Agree n 0 id (modifiersWithin env (fuel + 1)) (modifiersWithin env fuel') := by
  obtain ⟨m, rfl⟩ := Nat.exists_eq_succ_of_ne_zero (show fuel' ≠ 0 by omega)
  rw [modifiersWithin, modifiersWithin]
  have hexpression : ∀ k, k < n → F.Agree k 1 id (between "(" ")" (expressionWithin env fuel))
      (between "(" ")" (expressionWithin env m)) := fun k hk =>
    ih.parenthesised (by omega) (by omega)
  have hconstraint : ∀ k, k < n → F.Agree k 1 id (constraintWithin env fuel)
      (constraintWithin env m) := fun k hk => ih.constraint k m (by omega) (by omega)
  refine .after (.optionally_id (.bind (.keyword _) fun _ _ => .after (.lax (.keyword _)) fun _ =>
      .lax (.atLeastOne_id (.orElse
        (.bind (ih.builtIn (n - 1) m (by omega) (by omega)) fun _ _ => .pure rfl) (.orElse
        (.bind (ih.function (n - 1) m (by omega) (by omega)) fun _ _ => .pure rfl) (.orElse
        (.between (by decide) (by decide) fun _ => .after
          (ih.expression (n - 1 - 1) m (by omega) (by omega)).lax fun value =>
            .after (.optionally_id (.bind (.keyword _) fun _ _ => var_agree.lax)) fun _ => .pure rfl)
        (.bind var_agree fun _ _ => .pure rfl))))))) fun groupKeys => ?_
  refine .after (.optionally_id (.bind (.keyword _) fun _ _ =>
    .lax (.atLeastOne_id (hconstraint _ (by omega))))) fun having => ?_
  refine .after (.optionally_id (.bind (.keyword _) fun _ _ => .after (.lax (.keyword _)) fun _ =>
      .lax (.atLeastOne_id (.orElse
        (.bind (.keyword _) fun _ _ => .after (hexpression _ (by omega)).lax fun _ => .pure rfl)
        (.orElse
        (.bind (.keyword _) fun _ _ => .after (hexpression _ (by omega)).lax fun _ => .pure rfl)
        (.orElse (.bind (hconstraint _ (by omega)) fun _ _ => .pure rfl)
          (.bind var_agree fun _ _ => .pure rfl))))))) fun order => ?_
  exact .after limitOffset_agree fun slice => .pure rfl

theorem selection_succ : F.AgreeFrom 12 1 (fun found => (found.1.relabel F.rename, found.2))
    (selectionWithin env) (fuel + 1) := by
  refine .succ fun n m hn hm => ?_
  rw [selectionWithin, selectionWithin]
  refine .bind (.keyword _) fun _ _ => .after repetition_agree fun repetition =>
    .after (ih.columns (n - 1) m (by omega) (by omega)).lax fun columns =>
      .after (.optionally_id (.keyword _)) fun _ =>
        .after (ih.group (n - 1) m (by omega) (by omega)).lax fun body =>
          .after (ih.modifiers (n - 1) m (by omega) (by omega)) fun modifiers =>
            .after (.optionally (.bind (.keyword _) fun _ _ => dataBlock_agree.lax)) fun values =>
              .pure ?_
  rw [GroupPattern.algebra_relabel]
  exact Query.selection_relabel repetition columns body.algebra modifiers values

end GroupsAgree

theorem groups_agree (fuel : Nat) : GroupsAgree F env fuel := by
  induction fuel with
  | zero =>
      exact ⟨.zero, .zero, .zero, .zero, .zero, .zero, .zero, .zero, .zero, .zero, .zero, .zero,
        .zero, .zero, .zero, .zero, fun _ _ h => absurd h (Nat.not_succ_le_zero _), .zero⟩
  | succ fuel ih =>
      exact ⟨ih.expression_succ, ih.conjunction_succ, ih.comparison_succ, ih.list_succ, ih.sum_succ,
        ih.product_succ, ih.unary_succ, ih.primary_succ, ih.function_succ, ih.builtIn_succ,
        ih.aggregate_succ, ih.constraint_succ, ih.group_succ, ih.part_succ, ih.named_succ,
        ih.columns_succ, ih.modifiers_succ, ih.selection_succ⟩

end EntityMapping.Sparql.Grammar
