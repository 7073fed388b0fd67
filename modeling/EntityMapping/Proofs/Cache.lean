import EntityMapping.Cache
import Mathlib.Data.List.Basic

/-!
Which entries and pins the operations of a cache leave.

Only `put` brings an entry, and only `put` and `pin?` bring a pin; everything else takes away.
-/

namespace EntityMapping.Cache

variable {κ ν : Type} [DecidableEq κ] {c : Cache κ ν} {key : κ}

theorem dropOldest_sublist (pinned : List κ) (excess : Nat) (entries : List (κ × Option ν)) :
    (dropOldest pinned excess entries).Sublist entries := by
  induction entries generalizing excess with
  | nil => cases excess <;> exact List.Sublist.refl _
  | cons entry rest ih =>
      cases excess with
      | zero => exact List.Sublist.refl _
      | succ excess =>
          rw [dropOldest]
          split
          · exact (ih (excess + 1)).cons_cons entry
          · exact (ih excess).cons entry

theorem mem_of_mem_evict {entry : κ × Option ν} (h : entry ∈ c.evict.entries) :
    entry ∈ c.entries :=
  (dropOldest_sublist _ _ _).subset h

@[simp] theorem evict_pinned (c : Cache κ ν) : c.evict.pinned = c.pinned := rfl

theorem mem_others {entry : κ × Option ν} :
    entry ∈ c.others key ↔ entry ∈ c.entries ∧ entry.1 ≠ key := by
  simp [others]

theorem mem_withPin {pinned : List κ} {other : κ} :
    other ∈ withPin pinned key ↔ other ∈ pinned ∨ other = key := by
  unfold withPin
  split
  · next hpinned =>
      have hkey : key ∈ pinned := by simpa using hpinned
      exact ⟨Or.inl, fun h => h.elim id fun heq => heq ▸ hkey⟩
  · simp

/-! ### Looking up -/

theorem contains_iff : c.contains key = true ↔ ∃ entry ∈ c.entries, entry.1 = key := by
  simp [contains, keys]

theorem mem_of_peek {value : ν} (h : c.peek key = some value) : (key, some value) ∈ c.entries := by
  have hfound := Option.join_eq_some_iff.mp h
  obtain ⟨before, after, hentries, -⟩ := List.lookup_eq_some_iff.mp hfound
  simp [hentries]

@[simp] theorem get_fst (c : Cache κ ν) (key : κ) : (c.get key).1 = c.peek key := by
  unfold get
  split <;> simp [*]

/-- To ask for what is not there changes nothing. -/
theorem get_of_absent (h : c.peek key = none) : c.get key = (none, c) := by
  rw [get, h]

@[simp] theorem get_pinned (c : Cache κ ν) (key : κ) : (c.get key).2.pinned = c.pinned := by
  unfold get
  split <;> rfl

theorem mem_of_mem_get {entry : κ × Option ν} (h : entry ∈ (c.get key).2.entries) :
    entry ∈ c.entries := by
  unfold get at h
  split at h
  · next value hvalue =>
      rcases List.mem_append.mp h with h | h
      · exact (mem_others.mp h).1
      · exact List.mem_singleton.mp h ▸ mem_of_peek hvalue
  · exact h

/-- What was found is still there. -/
theorem mem_get_of_peek {value : ν} (h : c.peek key = some value) :
    (key, some value) ∈ (c.get key).2.entries := by
  simp [get, h]

/-! ### Keeping -/

theorem mem_put {value : Option ν} {pin : Bool} {entry : κ × Option ν}
    (h : entry ∈ (c.put key value pin).entries) : entry ∈ c.entries ∨ entry = (key, value) := by
  rcases List.mem_append.mp (mem_of_mem_evict h) with h | h
  · exact Or.inl (mem_others.mp h).1
  · exact Or.inr (List.mem_singleton.mp h)

@[simp] theorem put_pinned (c : Cache κ ν) (key : κ) (value : Option ν) :
    (c.put key value false).pinned = c.pinned := rfl

theorem mem_put_pinned {value : Option ν} {other : κ} :
    other ∈ (c.put key value true).pinned ↔ other ∈ c.pinned ∨ other = key :=
  mem_withPin

theorem pin?_eq {after : Cache κ ν} (h : c.pin? key = some after) :
    after = { c with pinned := withPin c.pinned key } := by
  unfold pin? at h
  split at h
  · exact (Option.some.inj h).symm
  · contradiction

/-! ### Letting go -/

theorem mem_discard {entry : κ × Option ν} :
    entry ∈ (c.discard key).entries ↔ entry ∈ c.entries ∧ entry.1 ≠ key :=
  mem_others

theorem mem_discard_pinned {other : κ} :
    other ∈ (c.discard key).pinned ↔ other ∈ c.pinned ∧ other ≠ key := by
  simp [discard]

theorem mem_of_mem_unpin {entry : κ × Option ν} (h : entry ∈ (c.unpin key).entries) :
    entry ∈ c.entries :=
  (dropOldest_sublist _ _ _).subset h

theorem mem_unpin_pinned {other : κ} :
    other ∈ (c.unpin key).pinned ↔ other ∈ c.pinned ∧ other ≠ key := by
  simp [unpin]

end EntityMapping.Cache
