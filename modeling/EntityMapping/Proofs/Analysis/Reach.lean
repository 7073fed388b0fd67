import EntityMapping.Analysis.Reach
import Mathlib.Logic.Relation
import Mathlib.Tactic.ByContra

/-!
What the rounds of a reachability search find.

A round that finds nothing new leaves nothing to be found.  One that does finds the end of an edge
that led outside before, so the edges that lead outside bound the number of rounds: after as many
rounds as there are edges, exactly what paths lead to has been found.
-/

namespace EntityMapping.Reach

variable {α : Type}

/-- A single step along an edge. -/
def Step (edges : List (α × α)) (a b : α) : Prop :=
  (a, b) ∈ edges

/-- A path, perhaps of no steps. -/
def Path (edges : List (α × α)) : α → α → Prop :=
  Relation.ReflTransGen (Step edges)

/-- No edge leads outside. -/
def Closed (edges : List (α × α)) (reached : List α) : Prop :=
  ∀ a ∈ reached, ∀ b, Step edges a b → b ∈ reached

theorem Closed.mem_of_path {edges : List (α × α)} {reached : List α} (h : Closed edges reached)
    {a b : α} (ha : a ∈ reached) (hpath : Path edges a b) : b ∈ reached := by
  induction hpath with
  | refl => exact ha
  | tail _ hstep ih => exact h _ ih _ hstep

variable [DecidableEq α]

/-- The edges that lead outside, wherever they begin. -/
def leaving (edges : List (α × α)) (reached : List α) : List (α × α) :=
  edges.filter fun edge => edge.2 ∉ reached

/-! ### One round -/

theorem mem_expand_from {edges : List (α × α)} {reached seen : List α} {x : α} :
    x ∈ edges.foldl (fun seen (a, b) =>
        if reached.contains a && !seen.contains b then seen ++ [b] else seen) seen ↔
      x ∈ seen ∨ ∃ a ∈ reached, Step edges a x := by
  induction edges generalizing seen with
  | nil => simp [Step]
  | cons edge edges ih =>
      obtain ⟨a, b⟩ := edge
      have hadded : x ∈ (if reached.contains a && !seen.contains b then seen ++ [b] else seen) ↔
          x ∈ seen ∨ (a ∈ reached ∧ x = b) := by
        by_cases ha : a ∈ reached
        · by_cases hb : b ∈ seen
          · simp only [ha, hb, List.contains_eq_mem, decide_true, Bool.not_true, Bool.and_false,
              Bool.false_eq_true, if_false, true_and]
            exact ⟨Or.inl, fun h => h.elim id fun heq => heq ▸ hb⟩
          · simp [ha, hb]
        · simp [ha]
      rw [List.foldl_cons, ih, hadded, or_assoc]
      refine or_congr_right ?_
      constructor
      · rintro (⟨ha, rfl⟩ | ⟨c, hc, hstep⟩)
        · exact ⟨a, ha, List.mem_cons_self⟩
        · exact ⟨c, hc, List.mem_cons_of_mem _ hstep⟩
      · rintro ⟨c, hc, hstep⟩
        rcases List.mem_cons.mp hstep with heq | hstep
        · obtain ⟨rfl, rfl⟩ := Prod.mk.inj heq
          exact Or.inl ⟨hc, rfl⟩
        · exact Or.inr ⟨c, hc, hstep⟩

/-- A round adds the ends of the edges that begin at what was reached. -/
theorem mem_expand {edges : List (α × α)} {reached : List α} {x : α} :
    x ∈ expand edges reached ↔ x ∈ reached ∨ ∃ a ∈ reached, Step edges a x :=
  mem_expand_from

/-- Where some edge leads outside, fewer do after a round. -/
theorem length_leaving_expand {edges : List (α × α)} {reached : List α}
    (h : ¬ Closed edges reached) :
    (leaving edges (expand edges reached)).length < (leaving edges reached).length := by
  simp only [Closed, Classical.not_forall] at h
  obtain ⟨a, ha, b, hstep, hb⟩ := h
  have hsub : leaving edges (expand edges reached) =
      (leaving edges reached).filter fun edge => edge.2 ∉ expand edges reached := by
    rw [leaving, leaving, List.filter_filter]
    refine List.filter_congr fun edge _ => ?_
    by_cases hedge : edge.2 ∈ expand edges reached
    · simp [hedge]
    · have hold : edge.2 ∉ reached := fun hmem => hedge (mem_expand.mpr (Or.inl hmem))
      simp [hedge, hold]
  rw [hsub]
  refine List.length_filter_lt_length_iff_exists.mpr ⟨(a, b), ?_, ?_⟩
  · exact List.mem_filter.mpr ⟨hstep, by simpa using hb⟩
  · simpa using mem_expand.mpr (Or.inr ⟨a, ha, hstep⟩)

theorem Closed.expand_closed {edges : List (α × α)} {reached : List α}
    (h : Closed edges reached) : Closed edges (expand edges reached) := by
  have hsame : ∀ x, x ∈ expand edges reached ↔ x ∈ reached := fun x =>
    mem_expand.trans (or_iff_left_of_imp fun ⟨a, ha, hstep⟩ => h a ha x hstep)
  intro a ha b hstep
  exact (hsame b).mpr (h a ((hsame a).mp ha) b hstep)

/-! ### All rounds -/

theorem mem_rounds_of_mem {edges : List (α × α)} (n : Nat) {reached : List α} {x : α}
    (h : x ∈ reached) : x ∈ rounds edges n reached := by
  induction n generalizing reached with
  | zero => exact h
  | succ n ih => exact ih (mem_expand.mpr (Or.inl h))

/-- Rounds find nothing that no path leads to. -/
theorem exists_path_of_mem_rounds {edges : List (α × α)} {n : Nat} {reached : List α} {x : α}
    (h : x ∈ rounds edges n reached) : ∃ a ∈ reached, Path edges a x := by
  induction n generalizing reached with
  | zero => exact ⟨x, h, .refl⟩
  | succ n ih =>
      obtain ⟨b, hb, hpath⟩ := ih h
      rcases mem_expand.mp hb with hb | ⟨a, ha, hstep⟩
      · exact ⟨b, hb, hpath⟩
      · exact ⟨a, ha, .head hstep hpath⟩

/-- The edges that lead outside at the beginning bound the rounds that are needed. -/
theorem closed_rounds {edges : List (α × α)} {n : Nat} {reached : List α}
    (h : Closed edges reached ∨ (leaving edges reached).length ≤ n) :
    Closed edges (rounds edges n reached) := by
  induction n generalizing reached with
  | zero =>
      change Closed edges reached
      refine h.elim id fun hnone a _ b hstep => ?_
      by_contra hb
      have hmem : (a, b) ∈ leaving edges reached :=
        List.mem_filter.mpr ⟨hstep, by simpa using hb⟩
      rw [List.eq_nil_of_length_eq_zero (Nat.le_zero.mp hnone)] at hmem
      contradiction
  | succ n ih =>
      apply ih
      by_cases hclosed : Closed edges reached
      · exact Or.inl hclosed.expand_closed
      · have hfewer := length_leaving_expand hclosed
        exact Or.inr (by have := h.resolve_left hclosed; omega)

/-- What is found from a node is what paths lead to. -/
theorem mem_closure {edges : List (α × α)} {start x : α} :
    x ∈ closure edges start ↔ Path edges start x := by
  constructor
  · intro h
    obtain ⟨a, ha, hpath⟩ := exists_path_of_mem_rounds h
    exact List.mem_singleton.mp ha ▸ hpath
  · intro hpath
    have hclosed : Closed edges (closure edges start) :=
      closed_rounds (Or.inr (List.length_filter_le _ _))
    exact hclosed.mem_of_path (mem_rounds_of_mem _ (List.mem_singleton.mpr rfl)) hpath

end EntityMapping.Reach
