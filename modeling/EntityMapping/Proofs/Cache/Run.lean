import EntityMapping.Proofs.Cache.Bound
import Mathlib.Data.List.Induction

/-!
Runs of a cache.

What an operation does falls into two parts: its own effect, and an eviction behind it.  The effect
leaves a tidy cache with one entry without a pin too many at most, so that an eviction drops at most
one entry.  Whatever is done with a cache, it keeps its bound, and it has under each key that is
present what was put there last.
-/

namespace EntityMapping.Cache

variable {κ ν : Type}

/-- What can be asked of a cache. -/
inductive Operation (κ ν : Type) where
  | get (key : κ)
  | put (key : κ) (value : Option ν) (pin : Bool)
  | pin (key : κ)
  | unpin (key : κ)
  | discard (key : κ)
  | clear
  deriving DecidableEq, Repr

namespace Operation

/-- Whether an operation takes a pin away: by unpinning the key, or by dropping the entry. -/
def Releases (key : κ) : Operation κ ν → Prop
  | .unpin other => other = key
  | .discard other => other = key
  | .clear => True
  | _ => False

/-- Whether an operation drops an entry on purpose. -/
def Drops (key : κ) : Operation κ ν → Prop
  | .discard other => other = key
  | .clear => True
  | _ => False

/-- Whether an operation makes room when it is done. -/
def makesRoom : Operation κ ν → Bool
  | .put _ _ _ => true
  | .unpin _ => true
  | _ => false

/-- The value that an operation puts under a key. -/
def putUnder [DecidableEq κ] (key : κ) : Operation κ ν → Option (Option ν)
  | .put other value _ => if other = key then some value else none
  | _ => none

end Operation

variable [DecidableEq κ] {c : Cache κ ν} {key : κ}

/-- The value that was put under a key last. -/
def lastPut (ops : List (Operation κ ν)) (key : κ) : Option (Option ν) :=
  ops.reverse.findSome? (Operation.putUnder key)

theorem lastPut_concat (ops : List (Operation κ ν)) (op : Operation κ ν) (key : κ) :
    lastPut (ops ++ [op]) key = (op.putUnder key).or (lastPut ops key) := by
  rw [lastPut, List.reverse_concat, List.findSome?_cons, lastPut]
  cases op.putUnder key <;> rfl

/-- The effect of an operation, without the eviction behind it. -/
def effect (c : Cache κ ν) : Operation κ ν → Cache κ ν
  | .get key => (c.get key).2
  | .put key value pin => { c with
      entries := c.others key ++ [(key, value)]
      pinned := if pin then withPin c.pinned key else c.pinned }
  | .pin key => (c.pin? key).getD c
  | .unpin key => { c with pinned := c.pinned.filter (· ≠ key) }
  | .discard key => c.discard key
  | .clear => c.clear

/-- The cache after an operation.  A pin for a key that is absent changes nothing. -/
def step (c : Cache κ ν) : Operation κ ν → Cache κ ν
  | .get key => (c.get key).2
  | .put key value pin => c.put key value pin
  | .pin key => (c.pin? key).getD c
  | .unpin key => c.unpin key
  | .discard key => c.discard key
  | .clear => c.clear

/-- A new cache after several operations. -/
def run (maxSize : Nat) (ops : List (Operation κ ν)) : Cache κ ν :=
  ops.foldl step (ofSize maxSize)

theorem run_append (maxSize : Nat) (ops more : List (Operation κ ν)) :
    run maxSize (ops ++ more) = more.foldl step (run maxSize ops) :=
  List.foldl_append

/-- The keys that go with the eviction behind an operation. -/
def evictedBy (c : Cache κ ν) (op : Operation κ ν) : List κ :=
  (c.effect op).keys.filter (· ∉ (c.step op).keys)

/-! ### Eviction -/

theorem Bounded.evict_eq (h : c.Bounded) : c.evict = c := by
  have hnone : c.unpinnedSize - c.maxSize = 0 := by
    rw [h.unpinnedSize_eq]
    exact Nat.sub_eq_zero_of_le h.bound
  rw [Cache.evict, hnone, dropOldest]

/-- The first entry without a pin is the one that goes. -/
theorem exists_dropOldest_one {pinned : List κ} {entries : List (κ × Option ν)}
    (h : (entries.filter fun entry => entry.1 ∉ pinned) ≠ []) :
    ∃ older victim newer, entries = older ++ victim :: newer ∧
      (∀ entry ∈ older, entry.1 ∈ pinned) ∧ victim.1 ∉ pinned ∧
      dropOldest pinned 1 entries = older ++ newer := by
  induction entries with
  | nil => exact absurd rfl h
  | cons entry rest ih =>
      by_cases hpinned : entry.1 ∈ pinned
      · obtain ⟨older, victim, newer, rfl, holder, hvictim, hdrop⟩ := ih (by simpa [hpinned] using h)
        refine ⟨entry :: older, victim, newer, rfl, ?_, hvictim, ?_⟩
        · exact List.forall_mem_cons.mpr ⟨hpinned, holder⟩
        · rw [dropOldest, if_pos (by simpa using hpinned), hdrop, List.cons_append]
      · refine ⟨[], entry, rest, rfl, List.forall_mem_nil _, hpinned, ?_⟩
        rw [dropOldest, if_neg (by simpa using hpinned)]
        cases rest <;> rfl

/-- Of a cache with one entry too many the first entry without a pin is evicted. -/
theorem Tidy.exists_evict (h : c.Tidy) (hlength : c.unpinned.length = c.maxSize + 1) :
    ∃ older victim newer, c.entries = older ++ victim :: newer ∧
      (∀ entry ∈ older, entry.1 ∈ c.pinned) ∧ victim.1 ∉ c.pinned ∧
      c.evict = { c with entries := older ++ newer } := by
  have hone : c.unpinnedSize - c.maxSize = 1 := by
    rw [h.unpinnedSize_eq]
    omega
  have hsome : c.unpinned ≠ [] := List.ne_nil_of_length_pos (by omega)
  obtain ⟨older, victim, newer, hentries, holder, hvictim, hdrop⟩ := exists_dropOldest_one hsome
  exact ⟨older, victim, newer, hentries, holder, hvictim, by rw [Cache.evict, hone, hdrop]⟩

/-! ### One operation -/

@[simp] theorem effect_maxSize (c : Cache κ ν) (op : Operation κ ν) :
    (c.effect op).maxSize = c.maxSize := by
  cases op with
  | get key => exact get_maxSize c key
  | pin key =>
      rw [effect, pin?]
      split <;> rfl
  | _ => rfl

theorem Bounded.pinned_getD (h : c.Bounded) (key : κ) : ((c.pin? key).getD c).Bounded := by
  by_cases hkey : key ∈ c.keys
  · rw [pin?_of_present hkey]
    exact h.pin hkey
  · rw [pin?, if_neg (by simpa [contains] using hkey)]
    exact h

theorem length_withPin (pinned : List κ) (key : κ) : pinned.length ≤ (withPin pinned key).length := by
  unfold withPin
  split
  · exact Nat.le_refl _
  · simp

/-- The effect of an operation is a tidy cache, and has one entry too many at most where room is
made behind it. -/
theorem Bounded.effect (h : c.Bounded) (op : Operation κ ν) :
    (c.effect op).Tidy ∧ (c.effect op).unpinned.length ≤ c.maxSize + op.makesRoom.toNat := by
  have hkept : ∀ {after : Cache κ ν}, after.Bounded → after.maxSize = c.maxSize →
      after.Tidy ∧ after.unpinned.length ≤ c.maxSize := fun hafter hsize =>
    ⟨hafter.toTidy, hsize ▸ hafter.bound⟩
  have hbound := h.bound
  rw [← h.unpinnedSize_eq, unpinnedSize] at hbound
  cases op with
  | get key => exact hkept (h.get key) (effect_maxSize c (.get key))
  | put key value pin =>
      have htidy := h.putting key value pin
      refine ⟨htidy, ?_⟩
      have hothers : (c.others key).length ≤ c.entries.length := List.length_filter_le _ _
      have hpins : c.pinned.length ≤ (if pin then withPin c.pinned key else c.pinned).length := by
        cases pin with
        | false => exact Nat.le_refl _
        | true => exact length_withPin c.pinned key
      have hsize := htidy.unpinnedSize_eq
      simp only [unpinnedSize, List.length_append, List.length_singleton] at hsize
      rw [Cache.effect, Operation.makesRoom, Bool.toNat_true]
      omega
  | pin key => exact hkept (h.pinned_getD key) (effect_maxSize c (.pin key))
  | unpin key =>
      have htidy := h.unpinning key
      refine ⟨htidy, ?_⟩
      have herase : c.pinned.filter (· ≠ key) = c.pinned.erase key := by
        rw [h.pinned_nodup.erase_eq_filter]
        refine List.filter_congr fun other _ => ?_
        by_cases hkey : other = key <;> simp [hkey]
      have hpins : (c.pinned.erase key).length = _ := List.length_erase
      rw [← herase] at hpins
      have hsize := htidy.unpinnedSize_eq
      dsimp only [unpinnedSize] at hsize
      rw [Cache.effect, Operation.makesRoom, Bool.toNat_true]
      split at hpins <;> omega
  | discard key => exact hkept (h.discard key) rfl
  | clear => exact hkept (bounded_ofSize c.maxSize) rfl

/-- An operation is its effect with an eviction behind it. -/
theorem Bounded.step_eq (h : c.Bounded) (op : Operation κ ν) : c.step op = (c.effect op).evict := by
  cases op with
  | get key => exact (h.get key).evict_eq.symm
  | put key value pin => rfl
  | pin key => exact (h.pinned_getD key).evict_eq.symm
  | unpin key => rfl
  | discard key => exact (h.discard key).evict_eq.symm
  | clear => exact (bounded_ofSize c.maxSize).evict_eq.symm

theorem Bounded.step (h : c.Bounded) (op : Operation κ ν) :
    (c.step op).Bounded ∧ (c.step op).maxSize = c.maxSize := by
  rw [h.step_eq op]
  exact ⟨(h.effect op).1.evict, effect_maxSize c op⟩

/-- What an operation evicts: nothing, as long as its effect is within the bound; else the first
entry without a pin that the effect leaves. -/
inductive Evicts (c : Cache κ ν) (op : Operation κ ν) : Prop where
  | nothing (bound : (c.effect op).unpinned.length ≤ c.maxSize) (same : c.step op = c.effect op)
  | oldest (older : List (κ × Option ν)) (victim : κ × Option ν) (newer : List (κ × Option ν))
      (excess : c.maxSize < (c.effect op).unpinned.length)
      (before : (c.effect op).entries = older ++ victim :: newer)
      (pinned : ∀ entry ∈ older, entry.1 ∈ (c.effect op).pinned)
      (unpinned : victim.1 ∉ (c.effect op).pinned)
      (after : c.step op = { c.effect op with entries := older ++ newer })

theorem Bounded.evicts (h : c.Bounded) (op : Operation κ ν) : c.Evicts op := by
  obtain ⟨htidy, hlength⟩ := h.effect op
  have hsize := effect_maxSize c op
  by_cases hbound : (c.effect op).unpinned.length ≤ c.maxSize
  · have hbounded : (c.effect op).Bounded := ⟨htidy, hsize ▸ hbound⟩
    exact .nothing hbound ((h.step_eq op).trans hbounded.evict_eq)
  · have hone := Bool.toNat_le op.makesRoom
    obtain ⟨older, victim, newer, hbefore, holder, hvictim, hafter⟩ :=
      htidy.exists_evict (by omega)
    exact .oldest older victim newer (by omega) hbefore holder hvictim
      ((h.step_eq op).trans hafter)

theorem filter_notMem_middle {older newer : List κ} (h : (older ++ key :: newer).Nodup) :
    (older ++ key :: newer).filter (· ∉ older ++ newer) = [key] := by
  have hgone : key ∉ older ++ newer := (List.nodup_cons.mp (List.nodup_middle.mp h)).1
  have hleft : ∀ side ⊆ older ++ newer, side.filter (· ∉ older ++ newer) = [] := by
    refine fun side hside => List.filter_eq_nil_iff.mpr fun other hother => ?_
    rw [decide_eq_true_eq]
    exact not_not.mpr (hside hother)
  rw [List.filter_append, List.filter_cons, if_pos (decide_eq_true hgone),
    hleft _ (List.subset_append_left _ _), hleft _ (List.subset_append_right _ _), List.nil_append]

/-- An operation evicts one key at most, which has no pin. -/
theorem Bounded.evictedBy (h : c.Bounded) (op : Operation κ ν) :
    (c.evictedBy op).length ≤ 1 ∧ ∀ key ∈ c.evictedBy op, key ∉ (c.effect op).pinned := by
  cases h.evicts op with
  | nothing hbound hsame =>
      have hnone : c.evictedBy op = [] := by
        rw [Cache.evictedBy, hsame]
        exact List.filter_eq_nil_iff.mpr fun key hkey => by simpa using hkey
      simp [hnone]
  | oldest older victim newer hexcess hbefore hpinned hvictim hafter =>
      have hkeys : (c.effect op).keys = older.map Prod.fst ++ victim.1 :: newer.map Prod.fst := by
        rw [keys, hbefore, List.map_append, List.map_cons]
      have hleft : (c.step op).keys = older.map Prod.fst ++ newer.map Prod.fst := by
        rw [hafter, keys, List.map_append]
      have hnodup := (h.effect op).1.keys_nodup
      rw [hkeys] at hnodup
      have hone : c.evictedBy op = [victim.1] := by
        rw [Cache.evictedBy, hkeys, hleft]
        exact filter_notMem_middle hnodup
      simp [hone, hvictim]

/-- What the effect of an operation leaves was put by it, or was there before. -/
theorem mem_effect {op : Operation κ ν} {value : Option ν} (h : (key, value) ∈ (c.effect op).entries) :
    op.putUnder key = some value ∨ op.putUnder key = none ∧ (key, value) ∈ c.entries := by
  cases op with
  | get other => exact Or.inr ⟨rfl, mem_of_mem_get h⟩
  | put other new pin =>
      rcases List.mem_append.mp h with h | h
      · obtain ⟨hmem, hne⟩ := mem_others.mp h
        exact Or.inr ⟨if_neg hne.symm, hmem⟩
      · obtain ⟨rfl, rfl⟩ := Prod.mk.inj (List.mem_singleton.mp h)
        exact Or.inl (if_pos rfl)
  | pin other =>
      refine Or.inr ⟨rfl, ?_⟩
      rw [Cache.effect, pin?] at h
      split at h <;> exact h
  | unpin other => exact Or.inr ⟨rfl, h⟩
  | discard other => exact Or.inr ⟨rfl, (mem_discard.mp h).1⟩
  | clear => contradiction

theorem Bounded.sublist_step (h : c.Bounded) (op : Operation κ ν) :
    (c.step op).entries.Sublist (c.effect op).entries := by
  rw [h.step_eq op]
  exact dropOldest_sublist _ _ _

/-- A key stays, unless it is dropped on purpose. -/
theorem Bounded.mem_effect_keys (h : c.Bounded) {op : Operation κ ν} (hkey : key ∈ c.keys)
    (hop : ¬op.Drops key) : key ∈ (c.effect op).keys := by
  cases op with
  | get other => exact ((h.perm_get other).map Prod.fst).mem_iff.mpr hkey
  | put other value pin => exact mem_touched_of_present (Or.inl hkey)
  | pin other =>
      rw [Cache.effect, pin?]
      split <;> exact hkey
  | unpin other => exact hkey
  | discard other =>
      rw [Cache.effect, keys, Cache.discard, keys_others]
      exact List.mem_filter.mpr ⟨hkey, decide_eq_true fun heq => hop heq.symm⟩
  | clear => exact absurd trivial hop

/-- A pin stays, unless it is released. -/
theorem mem_step_pinned {op : Operation κ ν} (hkey : key ∈ c.pinned) (hop : ¬op.Releases key) :
    key ∈ (c.step op).pinned := by
  cases op with
  | get other => exact (get_pinned c other).symm ▸ hkey
  | put other value pin =>
      cases pin with
      | false => exact hkey
      | true => exact mem_put_pinned.mpr (Or.inl hkey)
  | pin other =>
      rw [Cache.step, pin?]
      split
      · exact mem_withPin.mpr (Or.inl hkey)
      · exact hkey
  | unpin other => exact mem_unpin_pinned.mpr ⟨hkey, fun heq => hop heq.symm⟩
  | discard other => exact mem_discard_pinned.mpr ⟨hkey, fun heq => hop heq.symm⟩
  | clear => exact absurd trivial hop

/-! ### Runs -/

/-- A bounded cache that has under each key what was put there last. -/
structure Current (maxSize : Nat) (ops : List (Operation κ ν)) (c : Cache κ ν) : Prop
    extends Bounded c where
  size : c.maxSize = maxSize
  latest : ∀ key value, (key, value) ∈ c.entries → lastPut ops key = some value

theorem Current.step {maxSize : Nat} {ops : List (Operation κ ν)} (h : Current maxSize ops c)
    (op : Operation κ ν) : Current maxSize (ops ++ [op]) (c.step op) where
  toBounded := (h.toBounded.step op).1
  size := (h.toBounded.step op).2.trans h.size
  latest key value hentry := by
    rw [lastPut_concat]
    rcases mem_effect ((h.toBounded.sublist_step op).subset hentry) with hput | ⟨hput, hbefore⟩
    · rw [hput]
      rfl
    · rw [hput]
      exact h.latest key value hbefore

theorem current_run (maxSize : Nat) (ops : List (Operation κ ν)) :
    Current maxSize ops (run maxSize ops) := by
  induction ops using List.reverseRecOn with
  | nil => exact ⟨bounded_ofSize maxSize, rfl, fun _ _ h => absurd h List.not_mem_nil⟩
  | append_singleton ops op ih =>
      rw [run_append]
      exact ih.step op

/-- A key that is present has the value that was put under it last. -/
theorem Current.lookup {maxSize : Nat} {ops : List (Operation κ ν)} (h : Current maxSize ops c)
    (hkey : key ∈ c.keys) :
    ∃ value, c.entries.lookup key = some value ∧ lastPut ops key = some value := by
  obtain ⟨value, hentry⟩ := mem_keys.mp hkey
  exact ⟨value, lookup_of_mem h.keys_nodup hentry, h.latest key value hentry⟩

/-- Pins outlast every run that does not release them. -/
theorem mem_foldl_step_pinned {ops : List (Operation κ ν)} (hkey : key ∈ c.pinned)
    (hops : ∀ op ∈ ops, ¬op.Releases key) : key ∈ (ops.foldl step c).pinned := by
  induction ops generalizing c with
  | nil => exact hkey
  | cons op ops ih =>
      exact ih (mem_step_pinned hkey (hops op List.mem_cons_self)) fun other hother =>
        hops other (List.mem_cons_of_mem _ hother)

/-- Whatever is done with a cache, pinned keys are present, the entries without a pin are within the
bound, no key occurs twice, and each has the value that was put under it last.  A key that is absent
cannot be pinned.  A pinned one stays, with its pin and its last value, until it is unpinned or
dropped.  Other entries go when they are dropped, or when they are evicted, and no operation evicts
more than one. -/
theorem run_keeps (maxSize : Nat) (ops : List (Operation κ ν)) :
    let c := run maxSize ops
    (∀ key ∈ c.pinned, key ∈ c.keys) ∧ c.unpinned.length ≤ maxSize ∧ c.keys.Nodup ∧
      (∀ key ∈ c.keys, ∃ value, c.entries.lookup key = some value ∧
        lastPut ops key = some value) ∧
      (∀ key, (c.pin? key = none ↔ key ∉ c.keys) ∧ (key ∉ c.keys → c.step (.pin key) = c)) ∧
      (∀ key ∈ c.pinned, ∀ more, (∀ op ∈ more, ¬op.Releases key) →
        key ∈ (run maxSize (ops ++ more)).pinned ∧
        ∃ value, (run maxSize (ops ++ more)).entries.lookup key = some value ∧
          lastPut (ops ++ more) key = some value) ∧
      ∀ op, (∀ key ∈ c.keys, key ∉ (c.step op).keys → op.Drops key ∨ key ∈ c.evictedBy op) ∧
        (c.evictedBy op).length ≤ 1 ∧ ∀ key ∈ c.evictedBy op, key ∉ (c.effect op).pinned := by
  intro c
  have h : Current maxSize ops c := current_run maxSize ops
  have habsent : ∀ key, key ∉ c.keys → c.pin? key = none := fun key hkey =>
    if_neg (by simpa [contains] using hkey)
  refine ⟨h.present, h.size ▸ h.bound, h.keys_nodup, fun key hkey => h.lookup hkey,
    fun key => ⟨⟨fun hnone hkey => ?_, habsent key⟩, fun hkey => ?_⟩,
    fun key hkey more hmore => ?_, fun op => ⟨fun key hkey hgone => ?_, h.evictedBy op⟩⟩
  · rw [pin?_of_present hkey] at hnone
    contradiction
  · rw [step, habsent key hkey]
    rfl
  · have hpinned : key ∈ (run maxSize (ops ++ more)).pinned := by
      rw [run_append]
      exact mem_foldl_step_pinned hkey hmore
    have hlater := current_run maxSize (ops ++ more)
    exact ⟨hpinned, hlater.lookup (hlater.present key hpinned)⟩
  · by_cases hop : op.Drops key
    · exact Or.inl hop
    · exact Or.inr (List.mem_filter.mpr
        ⟨h.mem_effect_keys hkey hop, decide_eq_true hgone⟩)

end EntityMapping.Cache
