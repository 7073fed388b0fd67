import EntityMapping.Proofs.Cache.Run

/-!
The order of a cache.

A run tells when each key was touched last: put, or looked up and found.  A cache keeps no times, but
its keys stand in their order, whatever was pinned and unpinned in between.  So the first key without
a pin, which is the one that is evicted, is the one that was touched longest ago.
-/

namespace EntityMapping.Cache

variable {κ ν : Type} [DecidableEq κ] {c : Cache κ ν} {key : κ} {maxSize : Nat}
  {ops : List (Operation κ ν)} {op : Operation κ ν}

/-- Whether an operation puts no empty entry. -/
def Operation.isFilled : Operation κ ν → Bool
  | .put _ value _ => value.isSome
  | _ => true

/-- Whether an operation touches a key: puts it, or looks it up where it is present. -/
def touches (c : Cache κ ν) (key : κ) : Operation κ ν → Bool
  | .get other => other = key && c.contains key
  | .put other _ _ => other = key
  | _ => false

/-- The operations of a run, each with the cache that it meets. -/
def meetings (c : Cache κ ν) : List (Operation κ ν) → List (Cache κ ν × Operation κ ν)
  | [] => []
  | op :: ops => (c, op) :: meetings (c.step op) ops

/-- When a key was touched last in the run of a new cache: the number of the operation that did,
counted from one.  Zero stands for never. -/
def lastTouch (maxSize : Nat) (ops : List (Operation κ ν)) (key : κ) : Nat :=
  let run := meetings (ofSize maxSize) ops
  run.length - run.reverse.findIdx fun meeting => meeting.1.touches key meeting.2

theorem meetings_append (c : Cache κ ν) (ops more : List (Operation κ ν)) :
    c.meetings (ops ++ more) = c.meetings ops ++ (ops.foldl step c).meetings more := by
  induction ops generalizing c with
  | nil => rfl
  | cons op ops ih => exact congrArg (List.cons (c, op)) (ih (c.step op))

theorem length_meetings (c : Cache κ ν) (ops : List (Operation κ ν)) :
    (c.meetings ops).length = ops.length := by
  induction ops generalizing c with
  | nil => rfl
  | cons op ops ih => exact congrArg (· + 1) (ih (c.step op))

/-- An operation moves the times of the keys that it touches, and of no others. -/
theorem lastTouch_concat (maxSize : Nat) (ops : List (Operation κ ν)) (op : Operation κ ν)
    (key : κ) : lastTouch maxSize (ops ++ [op]) key =
      if (run maxSize ops).touches key op then ops.length + 1 else lastTouch maxSize ops key := by
  have hmeetings : (ofSize maxSize).meetings (ops ++ [op]) =
      (ofSize maxSize).meetings ops ++ [(run maxSize ops, op)] := meetings_append _ ops [op]
  rw [lastTouch, hmeetings, List.reverse_concat, List.length_append, List.findIdx_cons,
    length_meetings, List.length_singleton, lastTouch, length_meetings]
  by_cases htouches : (run maxSize ops).touches key op = true
  · rw [if_pos htouches, htouches, cond_true, Nat.sub_zero]
  · rw [if_neg htouches, Bool.eq_false_iff.mpr htouches, cond_false, Nat.add_sub_add_right]

theorem lastTouch_le (maxSize : Nat) (ops : List (Operation κ ν)) (key : κ) :
    lastTouch maxSize ops key ≤ ops.length := by
  rw [lastTouch, length_meetings]
  exact Nat.sub_le _ _

/-- No entry is empty. -/
def Filled (c : Cache κ ν) : Prop :=
  ∀ entry ∈ c.entries, entry.2 ≠ none

theorem filled_run (h : ∀ op ∈ ops, op.isFilled = true) : (run maxSize ops).Filled := by
  rintro ⟨key, value⟩ hentry
  have hput := (current_run maxSize ops).latest key value hentry
  obtain ⟨op, hop, hvalue⟩ := List.exists_of_findSome?_eq_some hput
  have hfilled := h op (List.mem_reverse.mp hop)
  cases op with
  | put other new pin =>
      rw [Operation.putUnder] at hvalue
      split at hvalue
      · obtain rfl := Option.some.inj hvalue
        exact Option.isSome_iff_ne_none.mp hfilled
      · contradiction
  | _ => contradiction

/-! ### What is touched goes to the end -/

/-- The keys with one of them at the end. -/
def touched (c : Cache κ ν) (key : κ) : List κ :=
  c.keys.filter (· ≠ key) ++ [key]

/-- The effect of an operation on the order: the key that it touches goes to the end, and the others
stay in their order. -/
theorem Bounded.sublist_effect_keys (h : c.Bounded) (hfilled : c.Filled) (op : Operation κ ν) :
    (∃ key, c.touches key op = true ∧ (∀ other, c.touches other op = true → other = key) ∧
      (c.effect op).keys = c.touched key) ∨
    (∀ key, c.touches key op = false) ∧ (c.effect op).keys.Sublist c.keys := by
  cases op with
  | get key =>
      by_cases hkey : key ∈ c.keys
      · obtain ⟨value, hentry⟩ := mem_keys.mp hkey
        obtain ⟨found, rfl⟩ := Option.ne_none_iff_exists'.mp (hfilled _ hentry)
        refine Or.inl ⟨key, ?_, fun other hother => ?_, ?_⟩
        · simpa [touches, contains] using hkey
        · exact (by simpa [touches] using hother : key = other ∧ _).1.symm
        · rw [Cache.effect, Cache.get, peek_of_mem h.keys_nodup hentry]
          simp only [keys, touched, List.map_append, keys_others, List.map_cons, List.map_nil]
      · have hnone : c.peek key = none := by
          by_contra hsome
          obtain ⟨value, hvalue⟩ := Option.ne_none_iff_exists'.mp hsome
          exact hkey (mem_keys.mpr ⟨_, mem_of_peek hvalue⟩)
        refine Or.inr ⟨fun other => ?_, ?_⟩
        · simp only [touches, contains, Bool.and_eq_false_iff, decide_eq_false_iff_not]
          by_cases hother : key = other
          · exact Or.inr (by simpa [hother] using hother ▸ hkey)
          · exact Or.inl hother
        · rw [Cache.effect, Cache.get, hnone]
  | put key value pin =>
      refine Or.inl ⟨key, by simp [touches], fun other hother => ?_, ?_⟩
      · exact (by simpa [touches] using hother : key = other).symm
      · simp only [Cache.effect, keys, touched, List.map_append, keys_others, List.map_cons,
          List.map_nil]
  | pin key =>
      refine Or.inr ⟨fun _ => rfl, ?_⟩
      rw [Cache.effect, pin?]
      split <;> exact List.Sublist.refl _
  | unpin key => exact Or.inr ⟨fun _ => rfl, List.Sublist.refl _⟩
  | discard key => exact Or.inr ⟨fun _ => rfl, List.filter_sublist.map Prod.fst⟩
  | clear => exact Or.inr ⟨fun _ => rfl, List.nil_sublist _⟩

/-- Keys in the order in which they were touched last. -/
def InOrder (maxSize : Nat) (ops : List (Operation κ ν)) (keys : List κ) : Prop :=
  keys.Pairwise fun a b => lastTouch maxSize ops a < lastTouch maxSize ops b

/-- The effect of an operation keeps the order, by the times behind it. -/
theorem InOrder.effect (h : InOrder maxSize ops (run maxSize ops).keys)
    (hops : ∀ op ∈ ops, op.isFilled = true) (op : Operation κ ν) :
    InOrder maxSize (ops ++ [op]) ((run maxSize ops).effect op).keys := by
  have hbounded := (current_run maxSize ops).toBounded
  have hle := lastTouch_le maxSize ops
  have htime := lastTouch_concat maxSize ops op
  rcases hbounded.sublist_effect_keys (filled_run hops) op with
    ⟨key, hkey, hother, hkeys⟩ | ⟨hnone, hsublist⟩
  · have hlater : ∀ other ≠ key,
        lastTouch maxSize (ops ++ [op]) other = lastTouch maxSize ops other :=
      fun other hne => (htime other).trans (if_neg fun htouches => hne (hother other htouches))
    have hnow : lastTouch maxSize (ops ++ [op]) key = ops.length + 1 :=
      (htime key).trans (if_pos hkey)
    rw [hkeys, touched]
    refine List.pairwise_append.mpr ⟨?_, List.pairwise_singleton _ _, ?_⟩
    · refine (List.Pairwise.filter _ h).imp_of_mem fun {a b} ha hb hab => ?_
      rw [hlater a (by simpa using (List.mem_filter.mp ha).2),
        hlater b (by simpa using (List.mem_filter.mp hb).2)]
      exact hab
    · intro a ha b hb
      rw [List.mem_singleton.mp hb, hnow, hlater a (by simpa using (List.mem_filter.mp ha).2)]
      exact Nat.lt_succ_of_le (hle a)
  · refine (h.sublist hsublist).imp fun {a b} hab => ?_
    rw [htime, htime, if_neg (by simp [hnone]), if_neg (by simp [hnone])]
    exact hab

theorem inOrder_run (maxSize : Nat) (hops : ∀ op ∈ ops, op.isFilled = true) :
    InOrder maxSize ops (run maxSize ops).keys := by
  induction ops using List.reverseRecOn with
  | nil => exact List.Pairwise.nil
  | append_singleton ops op ih =>
      have hbefore : ∀ op ∈ ops, op.isFilled = true := fun other hother =>
        hops other (List.mem_append_left _ hother)
      have hbounded := (current_run maxSize ops).toBounded
      have hstep : (run maxSize (ops ++ [op])).keys.Sublist ((run maxSize ops).effect op).keys := by
        rw [run_append]
        exact (hbounded.sublist_step op).map Prod.fst
      exact ((ih hbefore).effect hbefore op).sublist hstep

theorem others_middle (h : c.keys.Nodup) {older newer : List (κ × Option ν)}
    {entry : κ × Option ν} (hentries : c.entries = older ++ entry :: newer) :
    c.others entry.1 = older ++ newer := by
  rw [keys, hentries, List.map_append, List.map_cons] at h
  have hnew := (List.nodup_cons.mp (List.nodup_middle.mp h)).1
  rw [← List.map_append] at hnew
  have hothers : ∀ other ∈ older ++ newer, decide (other.1 ≠ entry.1) = true := fun other hother =>
    decide_eq_true fun heq => hnew (heq ▸ List.mem_map_of_mem hother)
  rw [others, hentries, List.filter_append, List.filter_cons, if_neg (by simp),
    ← List.filter_append, List.filter_eq_self.mpr hothers]

/-- The keys that are present stand in the order in which they were put, or looked up and found, for
the last time.  An operation evicts nothing as long as its effect is within the bound.  Else it is one
that puts or unpins, and of the keys without a pin the one goes that was touched longest ago, while
all others stay in their order. -/
theorem run_in_order (maxSize : Nat) (ops : List (Operation κ ν))
    (hops : ∀ op ∈ ops, op.isFilled = true) (op : Operation κ ν) :
    let c := run maxSize ops
    InOrder maxSize ops c.keys ∧ InOrder maxSize (ops ++ [op]) (c.effect op).keys ∧
      ((c.effect op).unpinned.length ≤ maxSize → c.step op = c.effect op) ∧
      (maxSize < (c.effect op).unpinned.length → op.makesRoom = true ∧
        ∃ victim ∈ (c.effect op).unpinned,
          (∀ other ∈ (c.effect op).unpinned, other ≠ victim →
            lastTouch maxSize (ops ++ [op]) victim.1 < lastTouch maxSize (ops ++ [op]) other.1) ∧
          c.step op = { c.effect op with entries := (c.effect op).others victim.1 }) := by
  intro c
  have h : Current maxSize ops c := current_run maxSize ops
  have hafter := (inOrder_run maxSize hops).effect hops op
  have hlength := (h.effect op).2
  rw [h.size] at hlength
  refine ⟨inOrder_run maxSize hops, hafter, fun hbound => ?_, fun hexcess => ⟨?_, ?_⟩⟩
  · cases h.evicts op with
    | nothing _ hsame => exact hsame
    | oldest _ _ _ hexcess => exact absurd hbound (Nat.not_le.mpr (h.size ▸ hexcess))
  · by_contra hnone
    rw [Bool.eq_false_iff.mpr hnone] at hlength
    exact absurd hlength (Nat.not_le.mpr hexcess)
  · cases h.evicts op with
    | nothing hbound _ => exact absurd (h.size ▸ hbound) (Nat.not_le.mpr hexcess)
    | oldest older victim newer _ hbefore holder hvictim hstep =>
        have hkeys : (c.effect op).keys = older.map Prod.fst ++ victim.1 :: newer.map Prod.fst := by
          rw [keys, hbefore, List.map_append, List.map_cons]
        refine ⟨victim, ?_, fun other hother hne => ?_, ?_⟩
        · rw [unpinned, hbefore]
          exact List.mem_filter.mpr ⟨List.mem_append_right _ List.mem_cons_self,
            decide_eq_true hvictim⟩
        · obtain ⟨hentry, hfree⟩ := List.mem_filter.mp hother
          rw [hbefore] at hentry
          rw [hkeys] at hafter
          rcases List.mem_append.mp hentry with hentry | hentry
          · exact absurd (holder other hentry) (of_decide_eq_true hfree)
          · have hnewer := (List.mem_cons.mp hentry).resolve_left hne
            exact List.rel_of_pairwise_cons (List.pairwise_append.mp hafter).2.1
              (List.mem_map_of_mem hnewer)
        · rw [hstep, others_middle (h.effect op).1.keys_nodup hbefore]

/-! A key is pinned, grows old, and evicts itself when it is unpinned. -/

def pinnedOps : List (Operation String Nat) :=
  [.put "a" (some 1) true, .put "b" (some 2) false, .put "c" (some 3) true, .get "b"]

theorem run_in_order_unpinned :
    let c := run 1 pinnedOps
    let op : Operation String Nat := .unpin "a"
    (∀ op ∈ pinnedOps, op.isFilled = true) ∧ c.keys = ["a", "c", "b"] ∧
      (c.step op).keys = ["c", "b"] ∧
      InOrder 1 pinnedOps c.keys ∧ InOrder 1 (pinnedOps ++ [op]) (c.effect op).keys ∧
      ((c.effect op).unpinned.length ≤ 1 → c.step op = c.effect op) ∧
      (1 < (c.effect op).unpinned.length → op.makesRoom = true ∧
        ∃ victim ∈ (c.effect op).unpinned,
          (∀ other ∈ (c.effect op).unpinned, other ≠ victim →
            lastTouch 1 (pinnedOps ++ [op]) victim.1 < lastTouch 1 (pinnedOps ++ [op]) other.1) ∧
          c.step op = { c.effect op with entries := (c.effect op).others victim.1 }) :=
  ⟨by decide, by decide, by decide, run_in_order 1 pinnedOps (by decide) (.unpin "a")⟩

end EntityMapping.Cache
