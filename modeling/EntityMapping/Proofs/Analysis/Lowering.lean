import EntityMapping.Proofs.Analysis.Ambiguous
import Mathlib.Logic.Relation

/-!
The pattern of an algebra expression.

A node of the expression either leaves the values of variables to the triples, or it is one that
the analysis refuses to reason about.  A node of the second kind shows in the pattern, wherever it
stands in the expression.  Without any, the pattern has the triples of the expression, each in as
many optional parts as left joins have it on their right side.
-/

namespace EntityMapping

open Sparql (Algebra Expr TriplePattern)

/-! ### Expressions -/

namespace Sparql.Expr

/-- The expressions right inside an expression. -/
def arguments : Expr → List Expr
  | .call _ arguments | .aggregate _ _ arguments => arguments
  | .term _ | .existence _ _ => []

/-- An expression has a part, at any depth. -/
def Contains : Expr → Expr → Prop :=
  Relation.ReflTransGen fun e part => part ∈ e.arguments

/-- Somewhere in the expression the existence of a pattern is tested. -/
def HasExistence (e : Expr) : Prop :=
  ∃ negated mentions, e.Contains (.existence negated mentions)

theorem hasExistence_iff {e : Expr} : e.HasExistence ↔
    (∃ negated mentions, e = .existence negated mentions) ∨
      ∃ part ∈ e.arguments, part.HasExistence := by
  simp only [HasExistence, Contains]
  constructor
  · rintro ⟨negated, mentions, h⟩
    rcases Relation.ReflTransGen.cases_head h with heq | ⟨part, hpart, hbelow⟩
    · exact Or.inl ⟨negated, mentions, heq⟩
    · exact Or.inr ⟨part, hpart, negated, mentions, hbelow⟩
  · rintro (⟨negated, mentions, rfl⟩ | ⟨part, hpart, negated, mentions, hbelow⟩)
    · exact ⟨negated, mentions, .refl⟩
    · exact ⟨negated, mentions, .head hpart hbelow⟩

mutual

/-- The search of an expression finds the tests at every depth. -/
theorem testsExistence_iff (e : Expr) : e.testsExistence = true ↔ e.HasExistence := by
  rw [hasExistence_iff]
  match e with
  | .term t => simp [testsExistence, arguments]
  | .call function arguments =>
      rw [testsExistence, anyTestsExistence_iff]
      simp [Expr.arguments]
  | .aggregate function distinct arguments =>
      rw [testsExistence, anyTestsExistence_iff]
      simp [Expr.arguments]
  | .existence negated mentions => simp [testsExistence]

/-- The same for one of several expressions. -/
theorem anyTestsExistence_iff (es : List Expr) :
    anyTestsExistence es = true ↔ ∃ e ∈ es, e.HasExistence := by
  match es with
  | [] => simp [anyTestsExistence]
  | e :: rest =>
      rw [anyTestsExistence, Bool.or_eq_true, testsExistence_iff e, anyTestsExistence_iff rest,
        List.exists_mem_cons_iff]

end

end Sparql.Expr

/-! ### Nodes of an algebra expression -/

namespace Sparql.Algebra

/-- The expressions right below the root. -/
def children : Algebra → List Algebra
  | .bgp _ | .values _ _ => []
  | .join l r | .leftJoin l r _ | .union l r | .minus l r => [l, r]
  | .filter _ p | .extend p _ _ | .graph _ p | .service _ p | .subSelect p | .aggregateJoin p
  | .orderBy p _ | .project p _ | .distinct p | .reduced p | .slice p _ _ => [p]

/-- An expression has a node, at any depth. -/
def Contains : Algebra → Algebra → Prop :=
  Relation.ReflTransGen fun p child => child ∈ p.children

/-- The rows of inline data.  Data that name no variable have none. -/
def dataRows (names : List String) (rows : List (List (Option Term))) :
    List (List (Option Term)) :=
  if names.isEmpty then [] else rows

/-- The nodes that the analysis can reason about, whatever is below them. -/
def IsTractable : Algebra → Prop
  | .bgp _ | .join _ _ | .extend _ _ _ => True
  | .project _ _ | .distinct _ | .reduced _ | .slice _ _ _ | .orderBy _ _ => True
  | .leftJoin _ _ condition => ∀ e ∈ condition, ¬ e.HasExistence
  | .filter condition _ => ¬ condition.HasExistence
  | .values names rows => dataRows names rows ≠ []
  | .union _ _ | .minus _ _ | .graph _ _ | .service _ _ | .subSelect _ | .aggregateJoin _ => False

/-- The triples of the blocks in order, each with the number of left joins that have the block on
their right side. -/
def levels : Algebra → List (TriplePattern × Nat)
  | .bgp ts => ts.map (·, 0)
  | .join l r | .union l r | .minus l r => l.levels ++ r.levels
  | .leftJoin l r _ => l.levels ++ r.levels.map fun (t, n) => (t, n + 1)
  | .values _ _ => []
  | .filter _ p | .extend p _ _ | .graph _ p | .service _ p | .subSelect p | .aggregateJoin p
  | .orderBy p _ | .project p _ | .distinct p | .reduced p | .slice p _ _ => p.levels

variable {p : Algebra}

/-- The analysis can reason about every node of the expression. -/
def Tractable (p : Algebra) : Prop :=
  ∀ node, p.Contains node → node.IsTractable

theorem tractable_iff : p.Tractable ↔ p.IsTractable ∧ ∀ child ∈ p.children, child.Tractable := by
  constructor
  · exact fun h => ⟨h p .refl, fun child hchild node hnode => h node (.head hchild hnode)⟩
  · rintro ⟨hroot, hchildren⟩ node hnode
    rcases Relation.ReflTransGen.cases_head hnode with rfl | ⟨child, hchild, hbelow⟩
    · exact hroot
    · exact hchildren child hchild node hbelow

end Sparql.Algebra

/-! ### The pattern -/

namespace Pattern

/-- The trees that stand for what the analysis refuses to reason about. -/
def IsIntractable : Pattern → Prop
  | .union _ | .unsupported _ => True
  | .basic _ | .group _ | .optional _ | .foreign _ => False

mutual

/-- The triples of the tree depth first, each with the number of optional parts around it. -/
def levels : Pattern → List (TriplePattern × Nat)
  | .basic ts => ts.map (·, 0)
  | .group children => levelsOfAll children
  | .optional child => child.levels.map fun (t, n) => (t, n + 1)
  | .union branches => levelsOfAll branches
  | .unsupported _ => []
  | .foreign _ => []

/-- The same for several trees, in order. -/
def levelsOfAll : List Pattern → List (TriplePattern × Nat)
  | [] => []
  | p :: rest => p.levels ++ levelsOfAll rest

end

mutual

theorem map_fst_levels (p : Pattern) : p.levels.map Prod.fst = p.triples := by
  match p with
  | .basic ts =>
      rw [levels, triples, List.map_map]
      exact List.map_id ts
  | .group children => rw [levels, triples, map_fst_levelsOfAll]
  | .optional child =>
      rw [levels, triples, ← map_fst_levels child, List.map_map]
      rfl
  | .union branches => rw [levels, triples, map_fst_levelsOfAll]
  | .unsupported element => rfl
  | .foreign text => rfl

theorem map_fst_levelsOfAll (ps : List Pattern) :
    (levelsOfAll ps).map Prod.fst = triplesOfAll ps := by
  match ps with
  | [] => rfl
  | p :: rest =>
      rw [levelsOfAll, triplesOfAll, List.map_append, map_fst_levels p, map_fst_levelsOfAll rest]

end

/-- Nowhere in the tree is anything that the analysis refuses to reason about. -/
def Tractable (p : Pattern) : Prop :=
  p.Everywhere fun node => ¬ node.IsIntractable

variable {p q : Pattern} {ts : List TriplePattern} {ps : List Pattern} {element : String}

@[simp] theorem tractable_basic : (basic ts).Tractable :=
  everywhere_basic.mpr not_false

@[simp] theorem tractable_group : (group ps).Tractable ↔ ∀ p ∈ ps, p.Tractable :=
  everywhere_group.trans (and_iff_right not_false)

@[simp] theorem tractable_optional : (optional p).Tractable ↔ p.Tractable :=
  everywhere_optional.trans (and_iff_right not_false)

@[simp] theorem not_tractable_union : ¬ (union ps).Tractable :=
  fun h => h.root trivial

@[simp] theorem not_tractable_unsupported : ¬ (unsupported element).Tractable :=
  fun h => h.root trivial

theorem any_testsExistence_iff {condition : Option Expr} :
    condition.any (·.testsExistence) = true ↔ ¬ ∀ e ∈ condition, ¬ e.HasExistence := by
  cases condition with
  | none => simp
  | some e => simp [Expr.testsExistence_iff]

/-- What the analysis refuses to reason about shows in the pattern, and nothing else does. -/
theorem tractable_ofAlgebra_iff (a : Algebra) : (ofAlgebra a).Tractable ↔ a.Tractable := by
  induction a with
  | bgp ts =>
      rw [Algebra.tractable_iff]
      simp [ofAlgebra, Algebra.IsTractable, Algebra.children]
  | join l r ihl ihr =>
      rw [Algebra.tractable_iff]
      simp [ofAlgebra, Algebra.IsTractable, Algebra.children, ihl, ihr]
  | leftJoin l r condition ihl ihr =>
      rw [Algebra.tractable_iff, Algebra.IsTractable, ofAlgebra]
      split
      · next htests => exact iff_of_false not_tractable_unsupported fun h =>
          any_testsExistence_iff.mp htests h.1
      · next htests =>
          rw [any_testsExistence_iff, not_not] at htests
          rw [and_iff_right htests]
          simp [Algebra.children, ihl, ihr]
  | filter condition p ih =>
      rw [Algebra.tractable_iff, Algebra.IsTractable, ofAlgebra, ← Expr.testsExistence_iff]
      split
      · next htests => simp [htests]
      · next htests => simp [Algebra.children, ih, htests]
  | values names rows =>
      rw [Algebra.tractable_iff, Algebra.IsTractable, Algebra.dataRows, ofAlgebra]
      cases hnames : names.isEmpty <;> cases rows <;> simp [Algebra.children]
  | union l r | minus l r | graph name p | service name p | subSelect p | aggregateJoin p =>
      rw [Algebra.tractable_iff]
      simp [ofAlgebra, Algebra.IsTractable]
  | extend p _ _ ih | orderBy p _ ih | project p _ ih | distinct p ih | reduced p ih
  | slice p _ _ ih =>
      rw [Algebra.tractable_iff, ofAlgebra, ih]
      simp [Algebra.IsTractable, Algebra.children]

/-- The pattern has the triples of the expression, each in as many optional parts as left joins have
it on their right side. -/
theorem levels_ofAlgebra {a : Algebra} (h : a.Tractable) : (ofAlgebra a).levels = a.levels := by
  induction a with
  | bgp ts => rfl
  | join l r ihl ihr =>
      obtain ⟨hl, hr⟩ : l.Tractable ∧ r.Tractable := by
        simpa [Algebra.children] using (Algebra.tractable_iff.mp h).2
      simp [ofAlgebra, levels, levelsOfAll, Algebra.levels, ihl hl, ihr hr]
  | leftJoin l r condition ihl ihr =>
      obtain ⟨hcondition, hchildren⟩ := Algebra.tractable_iff.mp h
      obtain ⟨hl, hr⟩ : l.Tractable ∧ r.Tractable := by simpa [Algebra.children] using hchildren
      rw [ofAlgebra, if_neg fun htests => any_testsExistence_iff.mp htests hcondition]
      simp [levels, levelsOfAll, Algebra.levels, ihl hl, ihr hr]
  | filter condition p ih =>
      obtain ⟨hcondition, hchildren⟩ := Algebra.tractable_iff.mp h
      rw [ofAlgebra, if_neg fun htests => hcondition ((Expr.testsExistence_iff _).mp htests)]
      exact ih (hchildren p List.mem_cons_self)
  | values names rows =>
      rw [ofAlgebra]
      split <;> rfl
  | union l r | minus l r | graph name p | service name p | subSelect p | aggregateJoin p =>
      exact (Algebra.tractable_iff.mp h).1.elim
  | extend p _ _ ih | orderBy p _ ih | project p _ ih | distinct p ih | reduced p ih
  | slice p _ _ ih =>
      exact ih ((Algebra.tractable_iff.mp h).2 p List.mem_cons_self)

/-- The analysis can reason about all of a pattern exactly if it can about every node of the
expression, at any depth.  Then nothing of the expression is lost: the pattern has each triple of
each block once, in as many optional parts as left joins have the block on their right side. -/
theorem ofAlgebra_faithful (a : Algebra) :
    ((ofAlgebra a).Tractable ↔ a.Tractable) ∧
    ((ofAlgebra a).Tractable →
      (ofAlgebra a).levels = a.levels ∧ (ofAlgebra a).triples = a.levels.map Prod.fst) := by
  refine ⟨tractable_ofAlgebra_iff a, fun h => ?_⟩
  have hlevels := levels_ofAlgebra ((tractable_ofAlgebra_iff a).mp h)
  exact ⟨hlevels, by rw [← map_fst_levels, hlevels]⟩

end Pattern

end EntityMapping
