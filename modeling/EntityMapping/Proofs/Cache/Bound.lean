import EntityMapping.Proofs.Cache
import Mathlib.Data.List.Nodup

/-!
The bound of a cache.

A cache counts the entries that are not pinned as the number of its entries less that of its pins.
This is right only as long as no key occurs twice and pins are for keys that are present.  Every
operation keeps that up, and behind every operation the entries without a pin are within the bound.
-/

namespace EntityMapping.Cache

variable {κ ν : Type} [DecidableEq κ] {c : Cache κ ν} {key : κ}

/-- The entries that may be dropped. -/
def unpinned (c : Cache κ ν) : List (κ × Option ν) :=
  c.entries.filter fun entry => entry.1 ∉ c.pinned

/-- No key occurs twice, no pin is kept twice, and only keys that are present are pinned. -/
structure Tidy (c : Cache κ ν) : Prop where
  keys_nodup : c.keys.Nodup
  pinned_nodup : c.pinned.Nodup
  present : ∀ key ∈ c.pinned, key ∈ c.keys

/-- A tidy cache that does not keep too much. -/
structure Bounded (c : Cache κ ν) : Prop extends Tidy c where
  bound : c.unpinned.length ≤ c.maxSize

theorem bounded_ofSize (maxSize : Nat) : (ofSize maxSize : Cache κ ν).Bounded where
  keys_nodup := List.nodup_nil
  pinned_nodup := List.nodup_nil
  present _ h := absurd h List.not_mem_nil
  bound := Nat.zero_le maxSize

omit [DecidableEq κ] in
theorem mem_keys : key ∈ c.keys ↔ ∃ value, (key, value) ∈ c.entries := by
  simp [keys]

/-- In a cache without duplicates a key has one value. -/
theorem lookup_of_mem (h : c.keys.Nodup) {value : Option ν} (hmem : (key, value) ∈ c.entries) :
    c.entries.lookup key = some value := by
  obtain ⟨maxSize, entries, pinned⟩ := c
  induction entries with
  | nil => exact absurd hmem List.not_mem_nil
  | cons entry rest ih =>
      obtain ⟨hnew, hrest⟩ := List.nodup_cons.mp h
      rcases List.mem_cons.mp hmem with rfl | hmem
      · simp
      · have hne : key ≠ entry.1 := by
          rintro rfl
          exact hnew (List.mem_map.mpr ⟨_, hmem, rfl⟩)
        rw [List.lookup_cons, beq_false_of_ne hne]
        exact ih hrest hmem

/-- In a cache without duplicates a look-up finds what is there. -/
theorem peek_of_mem (h : c.keys.Nodup) {value : ν} (hmem : (key, some value) ∈ c.entries) :
    c.peek key = some value := by
  rw [peek, lookup_of_mem h hmem]
  rfl

/-! ### Eviction -/

theorem mem_dropOldest_of_pinned {pinned : List κ} {entry : κ × Option ν}
    {entries : List (κ × Option ν)} (hpinned : entry.1 ∈ pinned) (h : entry ∈ entries)
    (excess : Nat) : entry ∈ dropOldest pinned excess entries := by
  induction entries generalizing excess with
  | nil => contradiction
  | cons other rest ih =>
      cases excess with
      | zero => exact h
      | succ excess =>
          rw [dropOldest]
          rcases List.mem_cons.mp h with rfl | h
          · rw [if_pos (by simpa using hpinned)]
            exact List.mem_cons_self
          · split
            · exact List.mem_cons_of_mem _ (ih h (excess + 1))
            · exact ih h excess

/-- Every entry that is dropped is one without a pin. -/
theorem length_filter_dropOldest (pinned : List κ) (excess : Nat)
    (entries : List (κ × Option ν)) :
    ((dropOldest pinned excess entries).filter fun entry => entry.1 ∉ pinned).length =
      (entries.filter fun entry => entry.1 ∉ pinned).length - excess := by
  induction entries generalizing excess with
  | nil => cases excess <;> simp [dropOldest]
  | cons entry rest ih =>
      cases excess with
      | zero => rfl
      | succ excess =>
          by_cases hpinned : entry.1 ∈ pinned
          · simpa [dropOldest, hpinned] using ih (excess + 1)
          · simpa [dropOldest, hpinned] using ih excess

theorem Tidy.length_pinned (h : c.Tidy) :
    (c.entries.filter fun entry => entry.1 ∈ c.pinned).length = c.pinned.length := by
  have hkeys : (c.entries.filter fun entry => entry.1 ∈ c.pinned).map Prod.fst =
      c.keys.filter (· ∈ c.pinned) := by
    rw [keys, List.filter_map]
    rfl
  have hsame : (c.keys.filter (· ∈ c.pinned)).Perm c.pinned := by
    apply (List.perm_ext_iff_of_nodup (h.keys_nodup.filter _) h.pinned_nodup).mpr
    intro key
    simpa using h.present key
  rw [← List.length_map, hkeys]
  exact hsame.length_eq

/-- What a cache takes for the number of its entries without a pin is that number. -/
theorem Tidy.unpinnedSize_eq (h : c.Tidy) : c.unpinnedSize = c.unpinned.length := by
  have hsplit := List.length_eq_length_filter_add (l := c.entries)
    fun entry => decide (entry.1 ∈ c.pinned)
  have hpinned := h.length_pinned
  have hunpinned : c.unpinned = c.entries.filter fun entry => !decide (entry.1 ∈ c.pinned) := by
    simp [unpinned]
  rw [unpinnedSize, hunpinned]
  omega

theorem mem_evict_of_pinned {entry : κ × Option ν} (hpinned : entry.1 ∈ c.pinned)
    (h : entry ∈ c.entries) : entry ∈ c.evict.entries :=
  mem_dropOldest_of_pinned hpinned h _

theorem Tidy.evict (h : c.Tidy) : c.evict.Bounded where
  keys_nodup := ((dropOldest_sublist _ _ _).map Prod.fst).nodup h.keys_nodup
  pinned_nodup := h.pinned_nodup
  present key hkey := by
    obtain ⟨value, hmem⟩ := mem_keys.mp (h.present key hkey)
    exact mem_keys.mpr ⟨value, mem_evict_of_pinned hkey hmem⟩
  bound := by
    have hlength : c.evict.unpinned.length =
        c.unpinned.length - (c.unpinnedSize - c.maxSize) := length_filter_dropOldest _ _ _
    have hmax : c.evict.maxSize = c.maxSize := rfl
    have hsize := h.unpinnedSize_eq
    omega

/-! ### Keys one by one -/

theorem keys_others (c : Cache κ ν) (key : κ) :
    (c.others key).map Prod.fst = c.keys.filter (· ≠ key) := by
  rw [others, keys, List.filter_map]
  rfl

/-- The entries with the one of a key as the most recently used one. -/
theorem Tidy.keys_touched (h : c.Tidy) (value : Option ν) :
    ((c.others key ++ [(key, value)]).map Prod.fst).Nodup := by
  rw [List.map_append, keys_others]
  apply List.nodup_append.mpr
  refine ⟨h.keys_nodup.filter _, List.nodup_singleton key, ?_⟩
  simp

theorem mem_touched_of_present {value : Option ν} {other : κ} (h : other ∈ c.keys ∨ other = key) :
    other ∈ (c.others key ++ [(key, value)]).map Prod.fst := by
  rw [List.map_append, keys_others]
  by_cases hother : other = key
  · simp [hother]
  · simpa [hother] using h

theorem nodup_withPin {pinned : List κ} (h : pinned.Nodup) (key : κ) :
    (withPin pinned key).Nodup := by
  unfold withPin
  split
  · exact h
  · next hnew =>
      have hkey : key ∉ pinned := by simpa using hnew
      exact List.nodup_append.mpr ⟨h, List.nodup_singleton key, by
        rintro other hother _ hsingle rfl
        exact hkey (List.mem_singleton.mp hsingle ▸ hother)⟩

/-- An entry that is put leaves a tidy cache, whatever has to be dropped for it. -/
theorem Tidy.putting (h : c.Tidy) (key : κ) (value : Option ν) (pin : Bool) :
    ({ c with
      entries := c.others key ++ [(key, value)]
      pinned := if pin then withPin c.pinned key else c.pinned } : Cache κ ν).Tidy := by
  cases pin with
  | false =>
      exact ⟨h.keys_touched value, h.pinned_nodup, fun other hother =>
        mem_touched_of_present (Or.inl (h.present other hother))⟩
  | true =>
      exact ⟨h.keys_touched value, nodup_withPin h.pinned_nodup key, fun other hother =>
        mem_touched_of_present ((mem_withPin.mp hother).imp_left (h.present other))⟩

theorem Tidy.put (h : c.Tidy) (key : κ) (value : Option ν) (pin : Bool) :
    (c.put key value pin).Bounded :=
  (h.putting key value pin).evict

theorem mem_put_of_pinned {value : Option ν} {pin : Bool} {entry : κ × Option ν}
    (hpinned : entry.1 ∈ c.pinned) (hne : entry.1 ≠ key) (h : entry ∈ c.entries) :
    entry ∈ (c.put key value pin).entries := by
  apply mem_evict_of_pinned
  · cases pin with
    | false => exact hpinned
    | true => exact mem_withPin.mpr (Or.inl hpinned)
  · exact List.mem_append_left _ (mem_others.mpr ⟨h, hne⟩)

theorem mem_put_self (c : Cache κ ν) (key : κ) (value : Option ν) :
    (key, value) ∈ (c.put key value true).entries :=
  mem_evict_of_pinned (mem_withPin.mpr (Or.inr rfl))
    (List.mem_append_right _ (List.mem_singleton.mpr rfl))

/-! ### Looking up -/

/-- A look-up reorders the entries. -/
theorem Tidy.perm_get (h : c.Tidy) (key : κ) : (c.get key).2.entries.Perm c.entries := by
  unfold get
  split
  · next value hvalue =>
      have hmem := mem_of_peek hvalue
      have hnodup := List.Nodup.of_map _ h.keys_nodup
      apply (List.perm_ext_iff_of_nodup (List.Nodup.of_map _ (h.keys_touched _)) hnodup).mpr
      intro entry
      rw [List.mem_append, mem_others, List.mem_singleton]
      constructor
      · rintro (⟨hentry, -⟩ | rfl)
        · exact hentry
        · exact hmem
      · intro hentry
        by_cases hkey : entry.1 = key
        · exact Or.inr (List.inj_on_of_nodup_map h.keys_nodup hentry hmem hkey)
        · exact Or.inl ⟨hentry, hkey⟩
  · exact List.Perm.refl _

@[simp] theorem get_maxSize (c : Cache κ ν) (key : κ) : (c.get key).2.maxSize = c.maxSize := by
  unfold get
  split <;> rfl

theorem Bounded.get (h : c.Bounded) (key : κ) : (c.get key).2.Bounded := by
  have hperm := h.perm_get key
  have hkeys : (c.get key).2.keys.Perm c.keys := hperm.map Prod.fst
  constructor
  · constructor
    · exact hkeys.nodup_iff.mpr h.keys_nodup
    · rw [get_pinned]
      exact h.pinned_nodup
    · intro other hother
      rw [get_pinned] at hother
      exact hkeys.mem_iff.mpr (h.present other hother)
  · rw [unpinned, get_pinned, get_maxSize, (hperm.filter _).length_eq]
    exact h.bound

/-! ### Pinning and letting go -/

/-- With more pins fewer entries may be dropped. -/
theorem Bounded.pin (h : c.Bounded) (hkey : key ∈ c.keys) :
    ({ c with pinned := withPin c.pinned key } : Cache κ ν).Bounded where
  keys_nodup := h.keys_nodup
  pinned_nodup := nodup_withPin h.pinned_nodup key
  present other hother := (mem_withPin.mp hother).elim (h.present other) fun heq => heq ▸ hkey
  bound := by
    refine Nat.le_trans (List.Sublist.length_le (List.monotone_filter_right c.entries ?_)) h.bound
    intro entry hentry
    simp only [decide_eq_true_eq, mem_withPin, not_or] at hentry ⊢
    exact hentry.1

theorem pin?_of_present (hkey : key ∈ c.keys) :
    c.pin? key = some { c with pinned := withPin c.pinned key } := by
  rw [pin?, if_pos]
  simpa [contains] using hkey

theorem Tidy.unpinning (h : c.Tidy) (key : κ) :
    ({ c with pinned := c.pinned.filter (· ≠ key) } : Cache κ ν).Tidy where
  keys_nodup := h.keys_nodup
  pinned_nodup := h.pinned_nodup.filter _
  present other hother := h.present other (List.mem_filter.mp hother).1

theorem Tidy.unpin (h : c.Tidy) (key : κ) : (c.unpin key).Bounded :=
  (h.unpinning key).evict

theorem Bounded.discard (h : c.Bounded) (key : κ) : (c.discard key).Bounded where
  keys_nodup := by
    rw [keys, Cache.discard, keys_others]
    exact h.keys_nodup.filter _
  pinned_nodup := h.pinned_nodup.filter _
  present other hother := by
    obtain ⟨hpinned, hne⟩ := mem_discard_pinned.mp hother
    rw [keys, Cache.discard, keys_others]
    simpa [hne] using h.present other hpinned
  bound := by
    refine Nat.le_trans (List.Sublist.length_le ?_) h.bound
    have hfilter : (c.discard key).unpinned = c.unpinned.filter fun entry => entry.1 ≠ key := by
      rw [unpinned, unpinned, Cache.discard, others, List.filter_filter, List.filter_filter]
      refine List.filter_congr fun entry _ => ?_
      by_cases hkey : entry.1 = key <;> simp [hkey]
    rw [hfilter]
    exact List.filter_sublist

end EntityMapping.Cache
