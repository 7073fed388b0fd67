import EntityMapping.Proofs.Sparql.Enclosed.Groups
import Mathlib.Logic.Function.Basic
import Mathlib.Data.String.Basic

/-!
Selections that stand in a group of another selection.

A selection that asks no graph of its own is read in braces as it is read by itself, with other labels
for its anonymous nodes.  Whatever is read in front of it and behind it, its pattern is the one that
it has by itself.
-/

namespace EntityMapping.Sparql

/-! ### New labels -/

theorem toList_anonymousLabel (n : Nat) :
    (anonymousLabel n).toList = '[' :: (Nat.toDigits 10 n ++ [']']) := by
  simp [anonymousLabel, Nat.repr_eq_ofList_toDigits]

theorem toList_itemLabel (place index : Nat) :
    (itemLabel place index).toList =
      '(' :: (Nat.toDigits 10 place ++ ')' :: Nat.toDigits 10 index) := by
  simp [itemLabel, Nat.repr_eq_ofList_toDigits]

theorem toDigits_injective : Function.Injective (Nat.toDigits 10) :=
  Function.LeftInverse.injective (g := fun cs => Nat.ofDigitChars 10 cs 0) fun _ =>
    Nat.ofDigitChars_ten_toDigits

theorem anonymousLabel_injective : Function.Injective anonymousLabel := by
  intro m n h
  have hlists := congrArg String.toList h
  rw [toList_anonymousLabel, toList_anonymousLabel] at hlists
  exact toDigits_injective (List.append_cancel_right (List.cons.inj hlists).2)

theorem itemLabel_injective :
    Function.Injective fun node : Nat × Nat => itemLabel node.1 node.2 := by
  rintro ⟨place, index⟩ ⟨place', index'⟩ h
  have hlists := congrArg String.toList h
  simp only [toList_itemLabel] at hlists
  have hrun : ∀ place index : Nat, Lexer.takeRun Char.isDigit
      (Nat.toDigits 10 place ++ ')' :: Nat.toDigits 10 index) =
        (Nat.toDigits 10 place, ')' :: Nat.toDigits 10 index) := fun place index =>
    Lexer.takeRun_of_all (fun c hc => Nat.isDigit_of_mem_toDigits (by decide) (by decide) hc) rfl
  have hboth := congrArg (Lexer.takeRun Char.isDigit) (List.cons.inj hlists).2
  rw [hrun, hrun] at hboth
  obtain ⟨hplace, hindex⟩ := Prod.mk.inj hboth
  exact Prod.ext (toDigits_injective hplace) (toDigits_injective (List.cons.inj hindex).2)

/-- The first character tells the kinds of labels apart. -/
theorem head?_anonymousLabel (n : Nat) : (anonymousLabel n).toList.head? = some '[' := by
  rw [toList_anonymousLabel]
  rfl

theorem head?_itemLabel (place index : Nat) :
    (itemLabel place index).toList.head? = some '(' := by
  rw [toList_itemLabel]
  rfl

/-- A function is injective if it is so on a range and outside of it, and keeps these apart. -/
theorem extend_injective_of_ne {α β : Type} {f g : α → β} {e : β → β} (hf : Function.Injective f)
    (hg : Function.Injective g) (he : Function.Injective e)
    (hne : ∀ a b, (¬∃ x, f x = b) → g a ≠ e b) : Function.Injective (Function.extend f g e) := by
  intro x y h
  by_cases hx : ∃ a, f a = x
  · obtain ⟨a, rfl⟩ := hx
    by_cases hy : ∃ b, f b = y
    · obtain ⟨b, rfl⟩ := hy
      rw [hf.extend_apply, hf.extend_apply] at h
      exact congrArg f (hg h)
    · rw [hf.extend_apply, Function.extend_apply' _ _ _ hy] at h
      exact absurd h (hne a y hy)
  · by_cases hy : ∃ b, f b = y
    · obtain ⟨b, rfl⟩ := hy
      rw [hf.extend_apply, Function.extend_apply' _ _ _ hx] at h
      exact absurd h.symm (hne b x hx)
    · rw [Function.extend_apply' _ _ _ hx, Function.extend_apply' _ _ _ hy] at h
      exact he h

/-- The labels of nodes of collections, for places that many further away from the end. -/
noncomputable def moveItem (distance : Nat) : String → String :=
  Function.extend (fun node : Nat × Nat => itemLabel node.1 node.2)
    (fun node => itemLabel (node.1 + distance) node.2) id

/-- The labels of new nodes, for places that many further away from the end. -/
noncomputable def moveLabel (distance : Nat) : String → String :=
  Function.extend anonymousLabel (fun place => anonymousLabel (place + distance))
    (moveItem distance)

section Moved

variable {distance : Nat}

theorem moveItem_item (place index : Nat) :
    moveItem distance (itemLabel place index) = itemLabel (place + distance) index :=
  itemLabel_injective.extend_apply _ _ (place, index)

theorem moveItem_other {label : String} (h : label.toList.head? ≠ some '(') :
    moveItem distance label = label := by
  refine Function.extend_apply' _ _ _ ?_
  rintro ⟨node, rfl⟩
  exact h (head?_itemLabel node.1 node.2)

theorem moveLabel_anonymous (place : Nat) :
    moveLabel distance (anonymousLabel place) = anonymousLabel (place + distance) :=
  anonymousLabel_injective.extend_apply _ _ place

theorem moveLabel_other {label : String} (h : label.toList.head? ≠ some '[') :
    moveLabel distance label = moveItem distance label := by
  refine Function.extend_apply' _ _ _ ?_
  rintro ⟨n, rfl⟩
  exact h (head?_anonymousLabel n)

theorem moveLabel_item (place index : Nat) :
    moveLabel distance (itemLabel place index) = itemLabel (place + distance) index := by
  rw [moveLabel_other (by rw [head?_itemLabel]; decide), moveItem_item]

theorem moveLabel_written {label : String} (h : (Token.blank label).Written) :
    moveLabel distance label = label := by
  have hne : ∀ c, (Lexer.isNameStart c || c.isDigit) = false → label.toList.head? ≠ some c := by
    intro c hc hhead
    rw [Token.Written, hhead, Option.any_some, hc] at h
    contradiction
  rw [moveLabel_other (hne _ (by decide)), moveItem_other (hne _ (by decide))]

theorem moveItem_injective : Function.Injective (moveItem distance) := by
  refine extend_injective_of_ne itemLabel_injective (fun node other h => ?_)
    Function.injective_id fun node label hlabel hnode =>
      hlabel ⟨(node.1 + distance, node.2), hnode⟩
  have hnodes : (node.1 + distance, node.2) = (other.1 + distance, other.2) := itemLabel_injective h
  obtain ⟨hplace, hindex⟩ := Prod.mk.inj hnodes
  exact Prod.ext (Nat.add_right_cancel hplace) hindex

/-- Nodes with different labels keep different labels. -/
theorem moveLabel_injective : Function.Injective (moveLabel distance) := by
  refine extend_injective_of_ne anonymousLabel_injective (fun place place' h => ?_)
    moveItem_injective fun place label hlabel h => ?_
  · exact Nat.add_right_cancel (anonymousLabel_injective h)
  · by_cases hnode : ∃ node : Nat × Nat, itemLabel node.1 node.2 = label
    · obtain ⟨node, rfl⟩ := hnode
      have hhead := head?_anonymousLabel (place + distance)
      rw [h, moveItem_item, head?_itemLabel] at hhead
      exact absurd hhead (by decide)
    · rw [moveItem, Function.extend_apply' _ _ _ hnode] at h
      exact hlabel ⟨_, h⟩

end Moved

/-- What stands behind a text, with the labels that it has in front of it. -/
noncomputable def Enclosure.of (more : List Token) : Enclosure where
  more := more
  rename := moveLabel (more.length + 1)
  written _ := moveLabel_written
  anonymous := moveLabel_anonymous
  item := moveLabel_item

/-! ### Nested selections -/

theorem Parser.bind_eq_some {α β : Type} {q : Parser α} {f : α → Parser β} {ts : List Token}
    {found : β × List Token} :
    (q >>= f) ts = some found ↔ ∃ a rest, q ts = some (a, rest) ∧ f a rest = some found := by
  rw [bind_apply, Option.bind_eq_some_iff, Prod.exists]

namespace Grammar

open Sparql.Parser

variable {env : Prologue} {ts more : List Token} {p : Algebra} {names : List String}

/-- The graph that a selection asks for between its columns and its pattern. -/
def askedGraph (env : Prologue) : Parser Unit := do
  let fuel ← nestingFuel
  keyword "SELECT"
  let _ ← repetition
  let _ ← columnsWithin env fuel
  datasetClause env

/-- A selection that asks no graph of its own is one that may be nested. -/
theorem selectionWithin_of_selectQuery (hgraph : askedGraph env ts = none)
    (h : selectQuery env ts = some (.select p names, [])) :
    selectionWithin env (12 * supply ts + 25) ts = some ((p, names), []) := by
  obtain ⟨fuel, us, hfuel, h⟩ := bind_eq_some.mp h
  obtain ⟨rfl, rfl⟩ := Prod.mk.inj (Option.some.inj hfuel)
  obtain ⟨word, us, hselect, h⟩ := bind_eq_some.mp h
  obtain ⟨repeated, vs, hrepetition, h⟩ := bind_eq_some.mp h
  obtain ⟨columns, ws, hcolumns, h⟩ := bind_eq_some.mp h
  obtain ⟨graphs, xs, hgraphs, h⟩ := bind_eq_some.mp h
  have hnone : datasetClause env ws = none := by
    by_contra hsome
    obtain ⟨⟨clause, rest⟩, hclause⟩ := Option.ne_none_iff_exists'.mp hsome
    have hasked : askedGraph env ts = some (clause, rest) :=
      bind_eq_some.mpr ⟨_, _, hfuel, bind_eq_some.mpr ⟨_, _, hselect,
        bind_eq_some.mpr ⟨_, _, hrepetition, bind_eq_some.mpr ⟨_, _, hcolumns, hclause⟩⟩⟩⟩
    exact absurd (hgraph.symm.trans hasked) nofun
  have hgraphs' : many (datasetClause env) ws = some ([], ws) := manyWithin_none hnone _
  obtain ⟨rfl, rfl⟩ := Prod.mk.inj (Option.some.inj (hgraphs'.symm.trans hgraphs))
  obtain ⟨there, xs, hwhere, h⟩ := bind_eq_some.mp h
  obtain ⟨body, ys, hbody, h⟩ := bind_eq_some.mp h
  obtain ⟨modifiers, zs, hmodifiers, h⟩ := bind_eq_some.mp h
  obtain ⟨values, last, hvalues, h⟩ := bind_eq_some.mp h
  rw [selectionWithin]
  refine bind_eq_some.mpr ⟨_, _, hselect, bind_eq_some.mpr ⟨_, _, hrepetition,
    bind_eq_some.mpr ⟨_, _, hcolumns, bind_eq_some.mpr ⟨_, _, hwhere, bind_eq_some.mpr ⟨_, _, hbody,
      bind_eq_some.mpr ⟨_, _, hmodifiers, bind_eq_some.mpr ⟨_, _, hvalues, ?_⟩⟩⟩⟩⟩⟩⟩
  obtain ⟨hquery, rfl⟩ := Prod.mk.inj (Option.some.inj h)
  obtain ⟨rfl, rfl⟩ := Query.select.inj hquery
  rfl

/-- A selection in front of a closing brace. -/
theorem selectionWithin_enclosed (hts : ∀ t ∈ ts, t.Written) (hgraph : askedGraph env ts = none)
    (h : selectQuery env ts = some (.select p names, [])) {fuel : Nat}
    (hfuel : 12 * supply ts + 1 ≤ fuel) (more : List Token) :
    selectionWithin env fuel (ts ++ .sign "\x7d" :: more) =
      some ((p.relabel (moveLabel (more.length + 1)), names), .sign "\x7d" :: more) := by
  have hread := selectionWithin_of_selectQuery hgraph h
  have hall : GroupsAgree (.of more) env (12 * supply ts + 25) := groups_agree _
  have hagree := hall.selection (supply ts) fuel (by omega) hfuel ts (Nat.le_refl _) hts
  have hclosed : unopened ts = some 0 := (hagree.takes _ _ hread).1.symm
  have hnested := hagree.reads (by simp [hclosed])
  rw [hread] at hnested
  exact hnested

end Grammar

end EntityMapping.Sparql
