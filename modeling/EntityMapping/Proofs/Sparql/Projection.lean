import EntityMapping.Sparql.Grammar.Queries

/-!
What a selection projects stays in sight.

A selection projects once, around its whole pattern, and a nested selection projects for itself.
So no name that a query projects is dropped on the way out of its pattern.
-/

namespace EntityMapping.Sparql

/-! ### What a parser yields -/

namespace Parser

variable {α β : Type} {p q : Parser α} {P : α → Prop} {Q : β → Prop}

/-- Whatever the tokens, a result of the parser has the property. -/
def Yields (p : Parser α) (P : α → Prop) : Prop :=
  ∀ ts a rest, p ts = some (a, rest) → P a

theorem Yields.pure {a : α} (h : P a) : (Pure.pure a : Parser α).Yields P := by
  intro ts b rest hb
  cases hb
  exact h

theorem Yields.failure : (Alternative.failure : Parser α).Yields P := fun _ _ _ h => nomatch h

theorem Yields.bind {f : α → Parser β} (hp : p.Yields P) (hf : ∀ a, P a → (f a).Yields Q) :
    (p >>= f).Yields Q := by
  intro ts b rest h
  rw [bind_apply] at h
  obtain ⟨⟨a, more⟩, ha, hb⟩ := Option.bind_eq_some_iff.mp h
  exact hf a (hp ts a more ha) more b rest hb

/-- What stands in front of a parser does not matter where its result is not looked at. -/
theorem Yields.after {f : α → Parser β} (hf : ∀ a, (f a).Yields Q) : (p >>= f).Yields Q :=
  Yields.bind (fun _ _ _ _ => trivial : p.Yields fun _ => True) fun a _ => hf a

theorem Yields.orElse (hp : p.Yields P) (hq : q.Yields P) : (p <|> q).Yields P := by
  intro ts a rest h
  rw [orElse_apply] at h
  rcases Option.or_eq_some_iff.mp h with h | ⟨-, h⟩
  · exact hp ts a rest h
  · exact hq ts a rest h

theorem Yields.between (hp : p.Yields P) (first last : String) :
    (Parser.between first last p).Yields P :=
  .after fun _ => .bind hp fun _ ha => .after fun _ => .pure ha

theorem Yields.optionally (hp : p.Yields P) :
    (Parser.optionally p).Yields fun o => ∀ a ∈ o, P a := by
  intro ts o rest h
  unfold Parser.optionally at h
  split at h
  · next a more ha =>
      cases h
      intro b hb
      cases hb
      exact hp ts a _ ha
  · cases h
    exact nofun

theorem Yields.manyWithin (hp : p.Yields P) (fuel : Nat) :
    (Parser.manyWithin fuel p).Yields fun as => ∀ a ∈ as, P a := by
  induction fuel with
  | zero =>
      intro ts as rest h
      cases h
      exact nofun
  | succ fuel ih =>
      intro ts as rest h
      unfold Parser.manyWithin at h
      split at h
      · next first more hfirst =>
          obtain ⟨⟨others, last⟩, hothers, heq⟩ := Option.map_eq_some_iff.mp h
          cases heq
          intro a ha
          rcases List.mem_cons.mp ha with rfl | ha
          · exact hp ts a more hfirst
          · exact ih more others _ hothers a ha
      · cases h
        exact nofun

theorem Yields.many (hp : p.Yields P) : (Parser.many p).Yields fun as => ∀ a ∈ as, P a :=
  fun ts => Yields.manyWithin hp (supply ts) ts

theorem Yields.parseAll (hp : p.Yields P) {ts : List Token} {a : α}
    (h : p.parseAll ts = some a) : P a := by
  unfold Parser.parseAll at h
  split at h
  · next b hb => exact Option.some.inj h ▸ hp ts b [] hb
  · contradiction

end Parser

/-! ### Names that a pattern keeps -/

/-- Whether no projection in the pattern drops the name.  What a nested selection drops is its own
affair. -/
def Algebra.Keeps (name : String) : Algebra → Prop
  | .bgp _ => True
  | .join l r | .leftJoin l r _ | .union l r | .minus l r => l.Keeps name ∧ r.Keeps name
  | .filter _ p | .extend p _ _ | .graph _ p | .service _ p | .aggregateJoin p | .orderBy p _
  | .distinct p | .reduced p | .slice p _ _ => p.Keeps name
  | .values _ _ => True
  | .subSelect _ => True
  | .project p names => name ∈ names ∧ p.Keeps name

/-- Whether the pattern of a part of a group keeps the name. -/
def GroupPart.Keeps (name : String) : GroupPart → Prop
  | .triples _ | .condition _ | .bind _ _ => True
  | .optional g | .minus g => g.body.Keeps name
  | .joined p => p.Keeps name

variable {name : String}

namespace Algebra

theorem keeps_joined {l r : Algebra} (hl : l.Keeps name) (hr : r.Keeps name) :
    (joined l r).Keeps name := by
  unfold joined
  split
  · exact hr
  · split
    · exact hl
    · exact ⟨hl, hr⟩

theorem keeps_filtered {condition : Option Expr} {p : Algebra} (h : p.Keeps name) :
    (filtered condition p).Keeps name := by
  cases condition with
  | none => exact h
  | some e => exact h

/-- A step that keeps names may be repeated. -/
theorem keeps_foldl {α : Type} {step : Algebra → α → Algebra} {parts : List α}
    (hstep : ∀ p, ∀ part ∈ parts, p.Keeps name → (step p part).Keeps name)
    {p : Algebra} (h : p.Keeps name) : (parts.foldl step p).Keeps name :=
  List.foldlRecOn parts step h fun p hp part hpart => hstep p part hpart hp

end Algebra

theorem GroupPattern.keeps_algebra {g : GroupPattern} (h : g.body.Keeps name) :
    g.algebra.Keeps name :=
  Algebra.keeps_filtered h

namespace GroupPart

theorem mem_mergeBlocks {parts : List GroupPart} {part : GroupPart}
    (h : part ∈ mergeBlocks parts) : (∃ ts, part = .triples ts) ∨ part ∈ parts := by
  fun_induction mergeBlocks parts with
  | case1 => exact absurd h List.not_mem_nil
  | case2 ts rest us more hmerged ih =>
      rcases List.mem_cons.mp h with rfl | h
      · exact Or.inl ⟨_, rfl⟩
      · exact (ih (hmerged ▸ List.mem_cons_of_mem _ h)).imp_right (List.mem_cons_of_mem _)
  | case3 ts rest hblock ih =>
      rcases List.mem_cons.mp h with rfl | h
      · exact Or.inl ⟨_, rfl⟩
      · exact (ih h).imp_right (List.mem_cons_of_mem _)
  | case4 first rest hfirst ih =>
      rcases List.mem_cons.mp h with rfl | h
      · exact Or.inr List.mem_cons_self
      · exact (ih h).imp_right (List.mem_cons_of_mem _)

theorem keeps_extend {p : Algebra} {part : GroupPart} (hp : p.Keeps name)
    (hpart : part.Keeps name) : (extend p part).Keeps name := by
  cases part with
  | triples ts => exact Algebra.keeps_joined hp trivial
  | condition e => exact hp
  | optional g => exact ⟨hp, hpart⟩
  | minus g => exact ⟨hp, GroupPattern.keeps_algebra hpart⟩
  | joined q => exact Algebra.keeps_joined hp hpart
  | bind value n => exact hp

end GroupPart

theorem GroupPattern.keeps_ofParts {parts : List GroupPart}
    (h : ∀ part ∈ parts, part.Keeps name) : (ofParts parts).body.Keeps name := by
  apply Algebra.keeps_foldl
  · intro p part hpart hp
    apply GroupPart.keeps_extend hp
    rcases GroupPart.mem_mergeBlocks hpart with ⟨ts, rfl⟩ | hpart
    · trivial
    · exact h part (List.mem_filter.mp hpart).1
  · trivial

/-- Whether a selection keeps what it projects. -/
def Query.KeepsProjected : Query → Prop
  | .select pattern projected => ∀ name ∈ projected, pattern.Keeps name
  | _ => True

theorem Query.keeps_grouped {m : Modifiers} {p : Algebra} (h : p.Keeps name) :
    (grouped m p).Keeps name := by
  refine Algebra.keeps_foldl ?_ h
  intro q key _ hq
  cases key with
  | mk value label => cases label <;> exact hq

/-- Named expressions, an order, repetitions and a slice leave the names alone; the projection
between them drops none that it lists. -/
theorem Query.keeps_selection {repetition : Option Repetition} {columns : Option (List Column)}
    {body : Algebra} {m : Modifiers} (hbody : body.Keeps name)
    (hvalues : ∀ p ∈ m.values, p.Keeps name) (hname : name ∈ projectedNames columns body) :
    (selection repetition columns body m).1.Keeps name := by
  unfold selection
  extract_lets names aggregated conditioned joined extended ordered projected repeated sliced
  have haggregated : aggregated.Keeps name := by
    change Algebra.Keeps name (if _ then _ else _)
    split
    · exact keeps_grouped hbody
    · exact hbody
  have hconditioned : conditioned.Keeps name := Algebra.keeps_filtered haggregated
  have hjoined : joined.Keeps name := by
    change (m.values.elim conditioned conditioned.joined).Keeps name
    cases hm : m.values with
    | none => exact hconditioned
    | some p => exact Algebra.keeps_joined hconditioned (hvalues p hm)
  have hextended : extended.Keeps name := by
    refine Algebra.keeps_foldl ?_ hjoined
    intro p column _ hp
    cases column <;> exact hp
  have hordered : ordered.Keeps name := by
    change Algebra.Keeps name (if _ then _ else _)
    split <;> exact hextended
  have hprojected : projected.Keeps name := ⟨hname, hordered⟩
  have hrepeated : repeated.Keeps name := by
    rcases repetition with _ | _ | _ <;> exact hprojected
  simp only [sliced]
  split <;> exact hrepeated

/-! ### Groups and selections as they are read -/

namespace Grammar

open Sparql.Parser

variable (env : Prologue)

theorem dataBlock_yields : (dataBlock env).Yields fun p => p.Keeps name :=
  .orElse (.after fun _ => .after fun _ => .pure trivial)
    (.after fun _ => .after fun _ => .pure trivial)

/-- Groups and their parts keep every name: nothing that is read between braces is a projection,
nested selections apart. -/
theorem groupWithin_yields (fuel : Nat) :
    (groupWithin env fuel).Yields (fun g => g.body.Keeps name) ∧
      (partWithin env fuel).Yields (fun part => part.Keeps name) := by
  induction fuel with
  | zero => exact ⟨.failure, .failure⟩
  | succ fuel ih =>
      obtain ⟨hgroup, hpart⟩ := ih
      have hnested : (groupWithin env fuel).Yields fun g => g.algebra.Keeps name :=
        fun ts g rest h => GroupPattern.keeps_algebra (hgroup ts g rest h)
      constructor
      · rw [groupWithin]
        have hblock : (do
            return (← optionally (triplesBlock env (pathOrVar env))).toList.map
              GroupPart.triples : Parser (List GroupPart)).Yields
              fun parts => ∀ part ∈ parts, part.Keeps name := by
          refine .after fun triples => .pure ?_
          intro part hpart
          obtain ⟨ts, -, rfl⟩ := List.mem_map.mp hpart
          trivial
        refine .between (.orElse (.after fun _ => .pure trivial) ?_) _ _
        refine .bind hblock fun first hfirst =>
          .bind (.many (P := fun parts => ∀ part ∈ parts, part.Keeps name) ?_)
            fun others hothers => .pure ?_
        · exact .bind hpart fun part hpart => .after fun _ => .bind hblock fun more hmore =>
            .pure (List.forall_mem_cons.mpr ⟨hpart, hmore⟩)
        · apply GroupPattern.keeps_ofParts
          intro part hpart
          rcases List.mem_append.mp hpart with hpart | hpart
          · exact hfirst part hpart
          · obtain ⟨parts, hparts, hpart⟩ := List.mem_flatten.mp hpart
            exact hothers parts hparts part hpart
      · rw [partWithin]
        refine .orElse ?_ (.orElse ?_ (.orElse ?_ (.orElse ?_ (.orElse ?_ (.orElse ?_
          (.orElse ?_ ?_))))))
        · refine .bind hnested fun first hfirst => .bind (.many (.after fun _ => hnested))
            fun others hothers => .pure (Algebra.keeps_foldl ?_ hfirst)
          exact fun p g hg hp => ⟨hp, hothers g hg⟩
        · exact .after fun _ => .bind hgroup fun g hg => .pure hg
        · exact .after fun _ => .bind hgroup fun g hg => .pure hg
        · exact .after fun _ => .after fun _ => .bind hnested fun g hg => .pure hg
        · exact .after fun _ => .after fun _ => .after fun _ => .bind hnested fun g hg => .pure hg
        · exact .after fun _ => .after fun _ => .pure trivial
        · exact .after fun _ => .after fun _ => .pure trivial
        · exact .after fun _ => .bind (dataBlock_yields env) fun p hp => .pure hp

theorem selectQuery_yields : (selectQuery env).Yields Query.KeepsProjected := by
  refine .after fun fuel => .after fun _ => .after fun repetition => .after fun columns =>
    .after fun _ => .after fun _ => .bind (P := fun g => ∀ name, g.body.Keeps name) ?_
      fun body hbody => .after fun modifiers =>
        .bind (P := fun values => ∀ p ∈ values, ∀ name, p.Keeps name) ?_
          fun values hvalues => .pure ?_
  · exact fun ts g rest h name => (groupWithin_yields env fuel).1 ts g rest h
  · exact .optionally (.after fun _ ts p rest h name => dataBlock_yields env ts p rest h)
  · intro name hname
    exact Query.keeps_selection (GroupPattern.keeps_algebra (hbody name))
      (fun p hp => hvalues p hp name) hname

theorem query_yields : (query env).Yields Query.KeepsProjected := by
  refine .after fun env => .orElse (selectQuery_yields env) (.orElse ?_ (.orElse ?_ ?_))
  · exact .after fun _ => .after fun _ => .pure trivial
  · exact .after fun _ => .after fun _ => .after fun _ => .after fun _ => .after fun _ =>
      .pure trivial
  · exact .after fun _ => .after fun _ => .after fun _ => .after fun _ => .after fun _ =>
      .pure trivial

end Grammar

/-- A selection that was read keeps what it projects. -/
theorem Query.keepsProjected_of_read {env : Prologue} {s : String} {q : Query}
    (h : Query.read env s = some q) : q.KeepsProjected := by
  obtain ⟨ts, -, hquery⟩ := Option.bind_eq_some_iff.mp h
  exact (Grammar.query_yields env).parseAll hquery

end EntityMapping.Sparql
