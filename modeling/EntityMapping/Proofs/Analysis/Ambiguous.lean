import EntityMapping.Proofs.Analysis.Digest
import Mathlib.Data.Set.Image

/-!
What it means that a variable is ambiguous.

The analysis tells optional parts apart by the numbers under which its walk enters them.  Here they
are told apart by where they are in the tree: a position is the list of the indices of the children
that lead to it.  A variable is ambiguous if each of its occurrences lies in an optional part, and
two of them lie in optional parts neither of which are all among the other's.
-/

namespace EntityMapping

open Sparql (TriplePattern)

namespace Pattern

/-! ### Positions -/

/-- The trees right below the root. -/
def children : Pattern → List Pattern
  | .group children => children
  | .optional child => [child]
  | .union branches => branches
  | _ => []

/-- The tree at a position. -/
def subtree? (p : Pattern) : List Nat → Option Pattern
  | [] => some p
  | i :: rest => p.children[i]?.bind fun child => child.subtree? rest

/-- The variable is the subject or the object of a triple in the block at the position. -/
def OccursAt (p : Pattern) (name : String) (pos : List Nat) : Prop :=
  ∃ ts, p.subtree? pos = some (.basic ts) ∧ ∃ t ∈ ts, t.Mentions name

/-- The positions of the optional parts around a position. -/
def enclosing (p : Pattern) (pos : List Nat) : Set (List Nat) :=
  {above | above <+: pos ∧ ∃ child, p.subtree? above = some (.optional child)}

/-- Around each of the two positions is an optional part that is not around the other. -/
def Beside (p : Pattern) (pos other : List Nat) : Prop :=
  ¬ p.enclosing pos ⊆ p.enclosing other ∧ ¬ p.enclosing other ⊆ p.enclosing pos

variable {p q child : Pattern} {ps : List Pattern} {name : String} {i : Nat}
  {pos other rest above : List Nat}

theorem occursAt_cons : p.OccursAt name (i :: rest) ↔
    ∃ child, p.children[i]? = some child ∧ child.OccursAt name rest := by
  simp only [OccursAt, subtree?, Option.bind_eq_some_iff]
  constructor
  · rintro ⟨ts, ⟨child, hchild, hsubtree⟩, hmentions⟩
    exact ⟨child, hchild, ts, hsubtree, hmentions⟩
  · rintro ⟨child, hchild, ts, hsubtree, hmentions⟩
    exact ⟨ts, ⟨child, hchild, hsubtree⟩, hmentions⟩

theorem mem_enclosing_nil :
    above ∈ p.enclosing [] ↔ above = [] ∧ ∃ inner, p = .optional inner := by
  rw [enclosing, Set.mem_ofPred_eq, List.prefix_nil]
  refine and_congr_right fun hnil => ?_
  rw [hnil, subtree?]
  simp

/-- The root is around a position if it is an optional part; what else is around it is below the
child that the position is in. -/
theorem mem_enclosing_cons : above ∈ p.enclosing (i :: rest) ↔
    (above = [] ∧ ∃ inner, p = .optional inner) ∨
      ∃ child, p.children[i]? = some child ∧
        ∃ inner ∈ child.enclosing rest, i :: inner = above := by
  match above with
  | [] => simp [enclosing, subtree?]
  | j :: below =>
      simp only [enclosing, Set.mem_ofPred_eq, List.cons_prefix_cons, subtree?,
        Option.bind_eq_some_iff]
      constructor
      · rintro ⟨⟨rfl, habove⟩, part, child, hchild, hsubtree⟩
        exact Or.inr ⟨child, hchild, below, ⟨habove, part, hsubtree⟩, rfl⟩
      · rintro (⟨hnil, -⟩ | ⟨child, hchild, _, ⟨habove, part, hsubtree⟩, heq⟩)
        · cases hnil
        · obtain ⟨rfl, rfl⟩ := List.cons.inj heq
          exact ⟨⟨rfl, habove⟩, part, child, hchild, hsubtree⟩

/-- What holds of every tree inside a tree, itself among them. -/
def Everywhere (P : Pattern → Prop) (p : Pattern) : Prop :=
  ∀ pos node, p.subtree? pos = some node → P node

variable {P : Pattern → Prop} {ts : List TriplePattern}

theorem Everywhere.root (h : p.Everywhere P) : P p :=
  h [] p rfl

theorem everywhere_iff : p.Everywhere P ↔ P p ∧ ∀ child ∈ p.children, child.Everywhere P := by
  constructor
  · intro h
    refine ⟨h.root, ?_⟩
    intro child hchild pos node hnode
    obtain ⟨i, hi⟩ := List.mem_iff_getElem?.mp hchild
    refine h (i :: pos) node ?_
    rw [subtree?, hi, Option.bind_some, hnode]
  · rintro ⟨hroot, hchildren⟩ pos node hnode
    cases pos with
    | nil =>
        obtain rfl := Option.some.inj hnode
        exact hroot
    | cons i rest =>
        obtain ⟨child, hchild, hbelow⟩ := Option.bind_eq_some_iff.mp hnode
        exact hchildren child (List.mem_of_getElem? hchild) rest node hbelow

theorem everywhere_basic : (basic ts).Everywhere P ↔ P (basic ts) :=
  everywhere_iff.trans (by simp [children])

theorem everywhere_group :
    (group ps).Everywhere P ↔ P (group ps) ∧ ∀ p ∈ ps, p.Everywhere P :=
  everywhere_iff

theorem everywhere_optional :
    (optional p).Everywhere P ↔ P (optional p) ∧ p.Everywhere P :=
  everywhere_iff.trans (by simp [children])

/-! ### Trees inside trees -/

/-- One tree lies in another, which has no other optional parts around it: `f` takes the positions
of the one to those of the other. -/
structure Embeds (f : List Nat → List Nat) (p q : Pattern) : Prop where
  injective : Function.Injective f
  occursAt : ∀ name pos, q.OccursAt name (f pos) ↔ p.OccursAt name pos
  enclosing : ∀ pos, q.enclosing (f pos) = f '' p.enclosing pos

theorem Embeds.enclosing_nonempty {f : List Nat → List Nat} (h : Embeds f p q) :
    (q.enclosing (f pos)).Nonempty ↔ (p.enclosing pos).Nonempty := by
  rw [h.enclosing, Set.image_nonempty]

theorem Embeds.beside_iff {f : List Nat → List Nat} (h : Embeds f p q) :
    q.Beside (f pos) (f other) ↔ p.Beside pos other := by
  rw [Beside, Beside, h.enclosing, h.enclosing, Set.image_subset_image_iff h.injective,
    Set.image_subset_image_iff h.injective]

/-- The position in a group, of a position in the group without its first child. -/
def shift (pos : List Nat) : List Nat :=
  pos.modifyHead (· + 1)

theorem embeds_first : Embeds (0 :: ·) p (group (p :: ps)) where
  injective := List.cons_injective
  occursAt name pos := by
    rw [occursAt_cons]
    simp [children]
  enclosing pos := by
    ext above
    rw [mem_enclosing_cons]
    simp [children]

theorem embeds_others : Embeds shift (group ps) (group (p :: ps)) where
  injective := by
    intro pos other h
    cases pos <;> cases other <;> simp_all [shift]
  occursAt name pos := by
    cases pos with
    | nil => simp [shift, OccursAt, subtree?]
    | cons i rest => exact occursAt_cons.trans occursAt_cons.symm
  enclosing pos := by
    ext above
    cases pos with
    | nil => simp [shift, mem_enclosing_nil]
    | cons i rest =>
        rw [shift, List.modifyHead_cons, mem_enclosing_cons, Set.mem_image]
        simp only [mem_enclosing_cons, children, List.getElem?_cons_succ]
        constructor
        · rintro (⟨-, _, hpart⟩ | ⟨child, hchild, inner, hinner, rfl⟩)
          · cases hpart
          · exact ⟨_, Or.inr ⟨child, hchild, inner, hinner, rfl⟩, rfl⟩
        · rintro ⟨_, ⟨-, _, hpart⟩ | ⟨child, hchild, inner, hinner, rfl⟩, rfl⟩
          · cases hpart
          · exact Or.inr ⟨child, hchild, inner, hinner, rfl⟩

/-- What occurs in a group, occurs in its first child or in the others. -/
theorem exists_occursAt_group {P : List Nat → Prop} :
    (∃ pos, (group (p :: ps)).OccursAt name pos ∧ P pos) ↔
      (∃ pos, p.OccursAt name pos ∧ P (0 :: pos)) ∨
        ∃ pos, (group ps).OccursAt name pos ∧ P (shift pos) := by
  constructor
  · rintro ⟨_ | ⟨_ | i, rest⟩, hoccurs, hP⟩
    · exact Or.inr ⟨[], (embeds_others.occursAt _ []).mp hoccurs, hP⟩
    · exact Or.inl ⟨rest, (embeds_first.occursAt _ _).mp hoccurs, hP⟩
    · exact Or.inr ⟨i :: rest, (embeds_others.occursAt _ (i :: rest)).mp hoccurs, hP⟩
  · rintro (⟨pos, hoccurs, hP⟩ | ⟨pos, hoccurs, hP⟩)
    · exact ⟨_, (embeds_first.occursAt _ _).mpr hoccurs, hP⟩
    · exact ⟨_, (embeds_others.occursAt _ _).mpr hoccurs, hP⟩

theorem not_subset_iff_of_apart {s t : Set (List Nat)} (h : ∀ above ∈ s, above ∉ t) :
    ¬ s ⊆ t ↔ s.Nonempty := by
  rw [Set.not_subset]
  constructor
  · rintro ⟨above, habove, -⟩
    exact ⟨above, habove⟩
  · rintro ⟨above, habove⟩
    exact ⟨above, habove, h above habove⟩

/-- A position in the first child and one in the others have no optional part around them both. -/
theorem enclosing_apart : ∀ above ∈ (group (p :: ps)).enclosing (0 :: pos),
    above ∉ (group (p :: ps)).enclosing (shift other) := by
  rw [embeds_first.enclosing, embeds_others.enclosing]
  rintro _ ⟨inner, -, rfl⟩ ⟨outer, -, heq⟩
  cases outer <;> simp [shift] at heq

theorem beside_first_others : (group (p :: ps)).Beside (0 :: pos) (shift other) ↔
    (p.enclosing pos).Nonempty ∧ ((group ps).enclosing other).Nonempty := by
  rw [Beside, not_subset_iff_of_apart enclosing_apart,
    not_subset_iff_of_apart fun above hothers hfirst => enclosing_apart above hfirst hothers,
    embeds_first.enclosing_nonempty, embeds_others.enclosing_nonempty]

theorem beside_others_first : (group (p :: ps)).Beside (shift other) (0 :: pos) ↔
    (p.enclosing pos).Nonempty ∧ ((group ps).enclosing other).Nonempty :=
  and_comm.trans beside_first_others

theorem enclosing_optional :
    (optional p).enclosing (0 :: pos) = insert [] ((0 :: ·) '' p.enclosing pos) := by
  ext above
  rw [mem_enclosing_cons]
  simp [children]

theorem exists_occursAt_optional {P : List Nat → Prop} :
    (∃ pos, (optional p).OccursAt name pos ∧ P pos) ↔
      ∃ pos, p.OccursAt name pos ∧ P (0 :: pos) := by
  constructor
  · rintro ⟨_ | ⟨_ | i, rest⟩, hoccurs, hP⟩
    · simp [OccursAt, subtree?] at hoccurs
    · exact ⟨rest, by simpa [occursAt_cons, children] using hoccurs, hP⟩
    · simp [occursAt_cons, children] at hoccurs
  · rintro ⟨pos, hoccurs, hP⟩
    exact ⟨0 :: pos, by simpa [occursAt_cons, children] using hoccurs, hP⟩

/-- Inside an optional part, positions lie beside each other as they do in its tree. -/
theorem beside_optional :
    (optional p).Beside (0 :: pos) (0 :: other) ↔ p.Beside pos other := by
  have hsubset : ∀ pos other,
      (optional p).enclosing (0 :: pos) ⊆ (optional p).enclosing (0 :: other) ↔
        p.enclosing pos ⊆ p.enclosing other := by
    intro pos other
    rw [enclosing_optional, enclosing_optional, Set.insert_subset_insert_iff (by simp)]
    exact Set.image_subset_image_iff List.cons_injective
  rw [Beside, Beside, hsubset, hsubset]

theorem occursAt_union : (union ps).OccursAt name pos ↔ (group ps).OccursAt name pos := by
  cases pos with
  | nil => simp [OccursAt, subtree?]
  | cons i rest => exact occursAt_cons.trans occursAt_cons.symm

theorem enclosing_union : (union ps).enclosing pos = (group ps).enclosing pos := by
  ext above
  cases pos with
  | nil => simp [mem_enclosing_nil]
  | cons i rest => simp [mem_enclosing_cons, children]

theorem enclosing_nil (h : ∀ child, p ≠ .optional child) : p.enclosing [] = ∅ := by
  ext above
  simp [mem_enclosing_nil, h]

/-! ### Where variables occur -/

/-- A tree and a digest that tells where the variables of the tree occur. -/
structure Locates (p : Pattern) (d : Digest) : Prop where
  outside : ∀ name, d.Outside name ↔ ∃ pos, p.OccursAt name pos ∧ p.enclosing pos = ∅
  inside : ∀ name, d.Inside name ↔ ∃ pos, p.OccursAt name pos ∧ (p.enclosing pos).Nonempty
  apart : ∀ name, d.Apart name ↔
    ∃ pos, p.OccursAt name pos ∧ ∃ other, p.OccursAt name other ∧ p.Beside pos other

variable {d e : Digest}

/-- Trees without children have no position but their root. -/
theorem locates_of_childless (hchildren : p.children = [])
    (hroot : ∀ child, p ≠ .optional child)
    (houtside : ∀ name, d.Outside name ↔ p.OccursAt name []) (hinside : ∀ name, ¬ d.Inside name)
    (hapart : ∀ name, ¬ d.Apart name) : p.Locates d := by
  have honly : ∀ {name pos}, p.OccursAt name pos → pos = [] := by
    rintro name (_ | ⟨i, rest⟩) hoccurs
    · rfl
    · simp [occursAt_cons, hchildren] at hoccurs
  have hempty : ∀ {name pos}, p.OccursAt name pos → p.enclosing pos = ∅ := fun hoccurs =>
    honly hoccurs ▸ enclosing_nil hroot
  constructor
  · intro name
    rw [houtside]
    exact ⟨fun hoccurs => ⟨[], hoccurs, enclosing_nil hroot⟩,
      fun ⟨pos, hoccurs, _⟩ => honly hoccurs ▸ hoccurs⟩
  · intro name
    refine iff_of_false (hinside name) ?_
    rintro ⟨pos, hoccurs, hnonempty⟩
    exact hnonempty.ne_empty (hempty hoccurs)
  · intro name
    refine iff_of_false (hapart name) ?_
    rintro ⟨pos, hpos, other, -, hbeside⟩
    exact hbeside.1 (hempty hpos ▸ Set.empty_subset _)

theorem locates_zero (hchildren : p.children = []) (hroot : ∀ child, p ≠ .optional child)
    (hblock : ∀ ts, p ≠ .basic ts) : p.Locates 0 := by
  refine locates_of_childless hchildren hroot (fun name => ?_) (by simp) (by simp)
  simp [OccursAt, subtree?, hblock]

theorem locates_basic (ts : List TriplePattern) :
    (basic ts).Locates (ts.map Digest.ofTriple).sum := by
  have hsum : ∀ name,
      ((ts.map Digest.ofTriple).sum.Outside name ↔ ∃ t ∈ ts, t.Mentions name) ∧
        ¬ (ts.map Digest.ofTriple).sum.Inside name ∧
        ¬ (ts.map Digest.ofTriple).sum.Apart name := by
    intro name
    induction ts with
    | nil => simp
    | cons t ts ih => simp [ih]
  refine locates_of_childless rfl (by simp) (fun name => ?_) (fun name => (hsum name).2.1)
    fun name => (hsum name).2.2
  rw [(hsum name).1]
  simp [OccursAt, subtree?]

theorem Locates.add (h : p.Locates d) (hothers : (group ps).Locates e) :
    (group (p :: ps)).Locates (d + e) where
  outside name := by
    simp only [Digest.outside_add, h.outside, hothers.outside, exists_occursAt_group,
      embeds_first.enclosing, embeds_others.enclosing, Set.image_eq_empty]
  inside name := by
    simp only [Digest.inside_add, h.inside, hothers.inside, exists_occursAt_group,
      embeds_first.enclosing, embeds_others.enclosing, Set.image_nonempty]
  apart name := by
    simp only [Digest.apart_add, h.apart, hothers.apart, h.inside, hothers.inside,
      exists_occursAt_group, embeds_first.beside_iff, embeds_others.beside_iff,
      beside_first_others, beside_others_first, and_or_left, exists_or]
    constructor
    · rintro (hfirst | hrest | ⟨⟨pos, hpos, hinside⟩, other, hother, hbelow⟩)
      · exact Or.inl (Or.inl hfirst)
      · exact Or.inr (Or.inr hrest)
      · exact Or.inr (Or.inl ⟨pos, hpos, other, hother, hinside, hbelow⟩)
    · rintro ((hfirst | ⟨other, hother, pos, hpos, hinside, hbelow⟩) |
        ⟨pos, hpos, other, hother, hinside, hbelow⟩ | hrest)
      · exact Or.inl hfirst
      · exact Or.inr (Or.inr ⟨⟨pos, hpos, hinside⟩, other, hother, hbelow⟩)
      · exact Or.inr (Or.inr ⟨⟨pos, hpos, hinside⟩, other, hother, hbelow⟩)
      · exact Or.inr (Or.inl hrest)

theorem Locates.enclosed (h : p.Locates d) : (optional p).Locates d.enclosed where
  outside name := by
    simp only [Digest.outside_enclosed, exists_occursAt_optional, enclosing_optional,
      (Set.insert_nonempty _ _).ne_empty, and_false, exists_false]
  inside name := by
    simp only [Digest.inside_enclosed, h.outside, h.inside, exists_occursAt_optional,
      enclosing_optional, Set.insert_nonempty, ← exists_or, ← and_or_left,
      Set.eq_empty_or_nonempty]
  apart name := by
    simp only [exists_occursAt_optional, beside_optional]
    exact h.apart name

/-- Whether a tree can be read makes no difference. -/
theorem Locates.refused (h : p.Locates d) : p.Locates d.refused :=
  ⟨h.outside, h.inside, h.apart⟩

theorem Locates.union (h : (group ps).Locates d) : (union ps).Locates d := by
  constructor
  · simpa only [occursAt_union, enclosing_union] using h.outside
  · simpa only [occursAt_union, enclosing_union] using h.inside
  · simpa only [occursAt_union, enclosing_union, Beside] using h.apart

mutual

/-- Along the tree: the digest tells where the variables occur. -/
theorem locates_digest (p : Pattern) : p.Locates p.digest := by
  match p with
  | .basic ts => exact locates_basic ts
  | .group children => exact locates_digestOfAll children
  | .optional child => exact (locates_digest child).enclosed
  | .union branches => exact (locates_digestOfAll branches).union.refused
  | .unsupported element => exact (locates_zero rfl (by simp) (by simp)).refused
  | .foreign text => exact (locates_zero rfl (by simp) (by simp)).refused

/-- The same for the children of a group. -/
theorem locates_digestOfAll (ps : List Pattern) : (group ps).Locates (digestOfAll ps) := by
  match ps with
  | [] => exact locates_zero rfl (by simp) (by simp)
  | p :: rest => exact (locates_digest p).add (locates_digestOfAll rest)

end

end Pattern

namespace Analysis

/-- A variable is ambiguous exactly if it is described, each of its occurrences lies in an optional
part, and around two of them are optional parts that are not around the other. -/
theorem mem_ambiguous_iff {q : SelectQuery} {anchor : String} {hints : SchemaHints} {a : Analysis}
    (h : derive q anchor hints = .ok a) (name : String) :
    name ∈ a.ambiguous ↔ (∃ v, (name, v) ∈ a.described) ∧
      (∀ pos, q.pattern.OccursAt name pos → (q.pattern.enclosing pos).Nonempty) ∧
      ∃ pos other, q.pattern.OccursAt name pos ∧ q.pattern.OccursAt name other ∧
        ¬ q.pattern.enclosing pos ⊆ q.pattern.enclosing other ∧
        ¬ q.pattern.enclosing other ⊆ q.pattern.enclosing pos := by
  have hlocates := Pattern.locates_digest q.pattern
  rw [mem_ambiguous h, hlocates.outside, hlocates.apart]
  refine and_congr (by simp) (and_congr ?_ ?_)
  · simp only [not_exists, not_and, Set.nonempty_iff_ne_empty, ne_eq]
  · refine exists_congr fun pos => ?_
    rw [← exists_and_left]
    rfl

/-- Notes with a title and a remark, of which the part about the remark is written twice. -/
def remarkedAgain : SelectQuery :=
  .ofPattern ["note", "title", "remark"] (.group [
    .basic [.plain (.var "note") (.iri "e:title") (.var "title")],
    .optional (.basic [.plain (.var "note") (.iri "e:remark") (.var "remark")]),
    .optional (.basic [.plain (.var "note") (.iri "e:remark") (.var "remark")])])

/-- Equal parts at two positions are two optional parts. -/
theorem mem_ambiguous_iff_remark :
    ∃ a, derive remarkedAgain "note" .none = .ok a ∧ "remark" ∈ a.ambiguous ∧
      (∃ v, ("remark", v) ∈ a.described) ∧
      (∀ pos, remarkedAgain.pattern.OccursAt "remark" pos →
        (remarkedAgain.pattern.enclosing pos).Nonempty) ∧
      ∃ pos other, remarkedAgain.pattern.OccursAt "remark" pos ∧
        remarkedAgain.pattern.OccursAt "remark" other ∧
        ¬ remarkedAgain.pattern.enclosing pos ⊆ remarkedAgain.pattern.enclosing other ∧
        ¬ remarkedAgain.pattern.enclosing other ⊆ remarkedAgain.pattern.enclosing pos := by
  obtain ⟨a, ha, hremark⟩ :
      ∃ a, derive remarkedAgain "note" .none = .ok a ∧ "remark" ∈ a.ambiguous :=
    ⟨_, rfl, List.mem_cons_self⟩
  exact ⟨a, ha, hremark, (mem_ambiguous_iff ha "remark").mp hremark⟩

end Analysis

end EntityMapping
