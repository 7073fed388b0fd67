import EntityMapping.Proofs.Entity.Grouping
import EntityMapping.Proofs.Session.Identity
import EntityMapping.Proofs.Session.Selected

/-!
What a load makes of the rows that the store returns, in whatever state the session is.

Each IRI of the rows gives one entity, new or from the cache, and unless it has changes of its own
the rows say what it has.  The order of the rows decides only about the order of the entities and
about which of several values a property of one takes.  It may decide about more where the cache can
lose an entity with changes, since a load of another entity may come first and put it out.
-/

namespace EntityMapping

open Sparql (Algebra)

namespace Session

variable {σ : Type} {s s' : Session σ} {id other : EntityId} {key : String × String}
  {t : EntityType} {uri : String} {rows : List Row} {uris : List String}

/-! ### Where entities come from -/

/-- What is in the cache after one step was there before, or is new. -/
theorem cached_instantiate (s : Session σ) (t : EntityType) (uri : String) (rows : List Row)
    (hentry : (key, some id) ∈ (s.instantiate t uri rows).2.cache.entries) :
    (key, some id) ∈ s.cache.entries ∨ s.entities.length ≤ id := by
  have htold := quiet_foldl_notify s (t.violationsIn uri rows)
  obtain ⟨found, -, hmade⟩ | ⟨-, hmade⟩ := s.instantiate_cases t uri rows
  · rw [hmade, refresh_eq] at hentry
    exact Or.inl (htold.entries _ (Cache.mem_of_mem_get hentry))
  · rw [hmade] at hentry
    rcases Cache.mem_put hentry with hentry | hentry
    · exact Or.inl (htold.entries _ hentry)
    · have hid := Option.some.inj (Prod.mk.inj hentry).2
      exact Or.inr (Nat.le_of_eq (hid.trans (congrArg List.length htold.entities)).symm)

theorem length_instantiate (s : Session σ) (t : EntityType) (uri : String) (rows : List Row) :
    s.entities.length ≤ (s.instantiate t uri rows).2.entities.length :=
  (loads_instantiate s t uri rows).records_nothing.2.2.2

/-- An entity that was there before rows gave it was in the cache. -/
theorem cached_of_instantiateAll (s : Session σ) (t : EntityType) (rows : List Row)
    (uris : List String) :
    ∀ id ∈ (s.instantiateAll t rows uris).1, id < s.entities.length →
      ∃ uri, ((t.name, uri), some id) ∈ s.cache.entries := by
  induction uris generalizing s with
  | nil => exact fun id hid => absurd hid List.not_mem_nil
  | cons uri rest ih =>
      intro id hid hold
      rw [instantiateAll_cons] at hid
      rcases List.mem_cons.mp hid with rfl | hid
      · obtain ⟨found, hpeek, hmade⟩ | ⟨-, hmade⟩ :=
          s.instantiate_cases t uri (t.rowsAbout uri rows)
        · rw [hmade]
          exact ⟨uri, Cache.mem_of_peek hpeek⟩
        · have hnew : (s.instantiate t uri (t.rowsAbout uri rows)).1 = s.entities.length := by
            rw [hmade]
            exact congrArg List.length (quiet_foldl_notify s _).entities
          exact absurd hold (by simp [hnew])
      · have hlater := Nat.lt_of_lt_of_le hold (s.length_instantiate t uri (t.rowsAbout uri rows))
        obtain ⟨found, hentry⟩ := ih _ id hid hlater
        refine ⟨found, (s.cached_instantiate t uri _ hentry).resolve_right ?_⟩
        exact Nat.not_le.mpr hold

/-! ### One load -/

/-- What a load leaves of rows: one entity of each of their IRIs, in order, where those without
changes of their own take their values from their rows, all others stay as they are, and the
listeners are told what the rows tell. -/
structure Grouped (s : Session σ) (t : EntityType) (rows : List Row) (ids : List EntityId)
    (s' : Session σ) : Prop where
  subjects : ∃ uris, t.FirstSeen rows uris ∧ ids.map s'.key? = uris.map fun uri => some (t.name, uri)
  clean : ∀ id ∈ ids, id ∉ s.dirty → ∃ e, s'.entity? id = some e ∧ e.committed = e.values ∧
    ∀ p ∈ t.properties, p.TakesFrom (t.rowsAbout e.uri rows) (e.values.property p.name)
  kept : ∀ id, id < s.entities.length → id ∉ ids ∨ id ∈ s.dirty → s'.entity? id = s.entity? id
  journal : s'.journal = s.journal
  dirty : s'.dirty = s.dirty
  told : ∃ vs, Told s vs s' ∧ t.Tells rows vs

variable [GraphStore σ] {text : String} {ids : List EntityId}

theorem grouped_loadText (h : Keyed s) (hnames : (t.properties.map Property.name).Nodup)
    (hanswer : (GraphStore.query text s.store).1 = .ok rows)
    (hload : s.loadText t text = (.ok ids, s')) : Grouped s t rows ids s' := by
  have hloads := s.loads_loadText t text
  obtain ⟨made, after, hmade, hgroups, htold⟩ := exists_loadText h t hanswer
  obtain ⟨hids, rfl⟩ := Prod.mk.inj (hload.symm.trans hmade)
  obtain rfl := Except.ok.inj hids
  rw [hload] at hloads
  obtain ⟨hjournal, hdirty, -, -⟩ := hloads.records_nothing
  constructor
  · exact ⟨_, t.firstSeen_subjectsIn rows, hgroups.keys⟩
  · intro id hid hclean
    obtain ⟨uri, -, hkey⟩ := hgroups.exists_key hid
    have hnot : s.isDirty id = false := by simpa [isDirty] using hclean
    obtain ⟨e, he, hvalues, hcommitted⟩ := hasState_loadText h hanswer hload id hid hnot uri hkey
    have huri : e.uri = uri :=
      (Prod.mk.inj (Option.some.inj ((key?_eq he).symm.trans hkey))).2
    refine ⟨e, he, hcommitted.trans hvalues.symm, fun p hp => ?_⟩
    rw [hvalues, huri, EntityType.property_stateIn hnames hp]
    exact p.takesFrom_stateIn _
  · exact fun id hknown hkept => hloads.entity?_eq hknown hkept
  · exact hjournal
  · exact hdirty
  · exact ⟨_, htold, t.tells_allViolationsIn rows⟩

/-! ### Two loads -/

/-- The cache cannot lose an entity with changes. -/
def DirtyPinned (s : Session σ) : Prop :=
  ∀ id ∈ s.dirty, ∀ key, (key, some id) ∈ s.cache.entries → key ∈ s.cache.pinned

/-- The entities of two loads are of the same IRIs, and the listeners are told the same. -/
structure Rearranges (s s₁ s₂ : Session σ) (ids₁ ids₂ : List EntityId) : Prop where
  subjects : (ids₁.map s₁.key?).Perm (ids₂.map s₂.key?)
  told : ∃ vs₁ vs₂, Told s vs₁ s₁ ∧ Told s vs₂ s₂ ∧ vs₁.Perm vs₂

/-- The entities of two loads with the same IRI have the same terms for every property of many. -/
def SameSets (t : EntityType) (s₁ s₂ : Session σ) (ids₁ ids₂ : List EntityId) : Prop :=
  ∀ id₁ ∈ ids₁, ∀ id₂ ∈ ids₂, ∀ e₁ e₂, s₁.entity? id₁ = some e₁ → s₂.entity? id₂ = some e₂ →
    e₁.uri = e₂.uri → ∀ p ∈ t.properties, p.isFunctional = false →
      ∀ o : Term, o.memberOf (e₁.values.terms p.name) = o.memberOf (e₂.values.terms p.name)

variable {s₁ s₂ : Session σ} {ids₁ ids₂ : List EntityId} {store : σ} {others : List Row}

/-- Where the cache cannot lose it, a dirty entity that one load gives is what another one gives for
its key. -/
theorem eq_of_dirty (h : Keyed s) (hpinned : s.DirtyPinned)
    (hanswer₁ : (GraphStore.query text s.store).1 = .ok rows)
    (hanswer₂ : (GraphStore.query text store).1 = .ok others)
    (hload₁ : s.loadText t text = (.ok ids₁, s₁))
    (hload₂ : { s with store := store }.loadText t text = (.ok ids₂, s₂)) (hid : id ∈ ids₁)
    (hdirty : id ∈ s.dirty) (hkey₁ : s₁.key? id = some key) (hother : other ∈ ids₂)
    (hkey₂ : s₂.key? other = some key) : other = id := by
  have hstored : Keyed { s with store := store } := h.congr rfl rfl (fun _ => rfl) rfl
  have hown : s.key? id = some key := by
    have hloads := s.loads_loadText t text
    rw [hload₁] at hloads
    exact (hloads.key?_eq (h.known id hdirty)).symm.trans hkey₁
  rw [loadText_ok t hanswer₁] at hload₁
  obtain ⟨hids₁, rfl⟩ := Prod.mk.inj hload₁
  obtain rfl := Except.ok.inj hids₁
  obtain ⟨uri, hentry⟩ := cached_of_instantiateAll _ t rows _ id hid (h.known id hdirty)
  obtain rfl := Option.some.inj ((h.cached _ id hentry).symm.trans hown)
  rw [loadText_ok t hanswer₂] at hload₂
  obtain ⟨hids₂, rfl⟩ := Prod.mk.inj hload₂
  obtain rfl := Except.ok.inj hids₂
  exact eq_of_pinned (hstored.ask text) hentry (hpinned id hdirty _ hentry) t others _ other hother
    hkey₂

theorem sameSets_of_perm (h : Keyed s) (hpinned : s.DirtyPinned)
    (hnames : (t.properties.map Property.name).Nodup) (hperm : rows.Perm others)
    (hanswer₁ : (GraphStore.query text s.store).1 = .ok rows)
    (hanswer₂ : (GraphStore.query text store).1 = .ok others)
    (hload₁ : s.loadText t text = (.ok ids₁, s₁))
    (hload₂ : { s with store := store }.loadText t text = (.ok ids₂, s₂)) :
    SameSets t s₁ s₂ ids₁ ids₂ := by
  have hstored : Keyed { s with store := store } := h.congr rfl rfl (fun _ => rfl) rfl
  intro id₁ hid₁ id₂ hid₂ e₁ e₂ he₁ he₂ huri p hp hmany o
  have hkeys : s₁.key? id₁ = s₂.key? id₂ := by
    obtain ⟨_, _, hmade₁, hgroups₁, -⟩ := exists_loadText h t hanswer₁
    obtain ⟨_, _, hmade₂, hgroups₂, -⟩ := exists_loadText hstored t hanswer₂
    obtain ⟨hids₁, rfl⟩ := Prod.mk.inj (hload₁.symm.trans hmade₁)
    obtain ⟨hids₂, rfl⟩ := Prod.mk.inj (hload₂.symm.trans hmade₂)
    obtain ⟨u₁, -, hkey₁⟩ := hgroups₁.exists_key (Except.ok.inj hids₁ ▸ hid₁)
    obtain ⟨u₂, -, hkey₂⟩ := hgroups₂.exists_key (Except.ok.inj hids₂ ▸ hid₂)
    have hown₁ := Option.some.inj ((key?_eq he₁).symm.trans hkey₁)
    have hown₂ := Option.some.inj ((key?_eq he₂).symm.trans hkey₂)
    rw [hkey₁, hkey₂, ← (Prod.mk.inj hown₁).2, ← (Prod.mk.inj hown₂).2, huri]
  have hgrouped₁ := grouped_loadText h hnames hanswer₁ hload₁
  have hgrouped₂ := grouped_loadText hstored hnames hanswer₂ hload₂
  by_cases hdirty : id₁ ∈ s.dirty
  · -- the dirty entity comes from the cache both times, and no load changes it
    have heq : id₂ = id₁ := eq_of_dirty h hpinned hanswer₁ hanswer₂ hload₁ hload₂ hid₁ hdirty
      (key?_eq he₁) hid₂ (hkeys ▸ key?_eq he₁)
    subst heq
    have hknown := h.known id₂ hdirty
    have hkept₁ := hgrouped₁.kept id₂ hknown (Or.inr hdirty)
    have hkept₂ : s₂.entity? id₂ = s.entity? id₂ := hgrouped₂.kept id₂ hknown (Or.inr hdirty)
    rw [Option.some.inj (he₁.symm.trans (hkept₁.trans (hkept₂.symm.trans he₂)))]
  · have hclean : id₂ ∉ s.dirty := by
      intro hdirty₂
      have heq : id₁ = id₂ := eq_of_dirty hstored hpinned hanswer₂ hanswer₁ hload₂ hload₁ hid₂
        hdirty₂ (key?_eq he₂) hid₁ (hkeys.symm ▸ key?_eq he₂)
      exact hdirty (heq ▸ hdirty₂)
    obtain ⟨_, hfound₁, -, htakes₁⟩ := hgrouped₁.clean id₁ hid₁ hdirty
    obtain ⟨_, hfound₂, -, htakes₂⟩ := hgrouped₂.clean id₂ hid₂ hclean
    obtain rfl := Option.some.inj (he₁.symm.trans hfound₁)
    obtain rfl := Option.some.inj (he₂.symm.trans hfound₂)
    exact Property.TakesFrom.memberOf_perm (htakes₁ p hp) (huri ▸ htakes₂ p hp) hmany
      (EntityType.perm_rowsAbout hperm e₁.uri) o

/-- In every state of a session a load groups the rows that the store returns.  Their order makes no
difference to the IRIs or to what is told; and it makes none to the sets of terms where the cache
cannot lose an entity with changes. -/
theorem loadText_groups (hs : Reached s) (hnames : (t.properties.map Property.name).Nodup)
    (hanswer : (GraphStore.query text s.store).1 = .ok rows) :
    ∃ ids s', s.loadText t text = (.ok ids, s') ∧ Grouped s t rows ids s' ∧
      ∀ store others, rows.Perm others → (GraphStore.query text store).1 = .ok others →
        ∃ ids' s'', { s with store := store }.loadText t text = (.ok ids', s'') ∧
          Rearranges s s' s'' ids ids' ∧
          (s.DirtyPinned → SameSets t s' s'' ids ids') := by
  have h := hs.keyed
  obtain ⟨ids, s', hload, hmade, htold⟩ := exists_loadText h t hanswer
  refine ⟨ids, s', hload, grouped_loadText h hnames hanswer hload, ?_⟩
  intro store others hperm hother
  have hstored : Keyed { s with store := store } := h.congr rfl rfl (fun _ => rfl) rfl
  obtain ⟨ids', s'', hload', hmade', htold'⟩ := exists_loadText hstored t hother
  refine ⟨ids', s'', hload', ⟨?_, _, _, htold, ?_, t.perm_allViolationsIn hperm⟩, fun hpinned =>
    sameSets_of_perm h hpinned hnames hperm hanswer hother hload hload'⟩
  · rw [hmade.keys, hmade'.keys]
    exact (EntityType.perm_subjectsIn hperm).map _
  · exact (told_nothing rfl rfl : Told s [] { s with store := store }).append htold'

/-! A note has a tag that waits, and its rows come mixed with those of another note. -/

open MemoryStore (noteType)

def tagRow (uri tag : String) : Row :=
  [("note", some (.iri uri)), ("tag", some (.literal (.plain tag)))]

def mixedRows : List Row :=
  [tagRow "http://e/n1" "a", tagRow "http://e/n2" "b", tagRow "http://e/n1" "c"]

/-- The actions that give the note a tag, in a session with room for one entity. -/
def tagNote : List (Action PreparedStore) :=
  [.select noteType noteType.allText, .mutate (.add 0 "tag" (.datum (.text "d")))]

def waitingSession : Session PreparedStore :=
  Action.runAll (.ofStore ⟨[.ok [tagRow "http://e/n1" "a"], .ok mixedRows]⟩ (.ofSequence toString) 1)
    tagNote

theorem loadText_groups_waiting :
    ∃ ids s', waitingSession.loadText noteType noteType.allText = (.ok ids, s') ∧
      Grouped waitingSession noteType mixedRows ids s' ∧
      ∃ ids' s'', { waitingSession with store := PreparedStore.mk [.ok mixedRows.reverse] }.loadText noteType
          noteType.allText = (.ok ids', s'') ∧
        Rearranges waitingSession s' s'' ids ids' ∧ SameSets noteType s' s'' ids ids' := by
  have hreached : Reached waitingSession := (Reached.start _ _ _).runAll tagNote
  have hdirty : waitingSession.dirty = [0] := by decide +kernel
  have hcached : waitingSession.cache.entries = [(("Note", "http://e/n1"), some 0)] := by
    decide +kernel
  have hpins : waitingSession.cache.pinned = [("Note", "http://e/n1")] := by decide +kernel
  have hpinned : waitingSession.DirtyPinned := by
    intro id hid key hentry
    rw [hcached] at hentry
    rw [hpins, (Prod.mk.inj (List.mem_singleton.mp hentry)).1]
    exact List.mem_singleton_self _
  have hnames : (noteType.properties.map Property.name).Nodup := by decide
  have hanswer : (GraphStore.query noteType.allText waitingSession.store).1 = .ok mixedRows := rfl
  obtain ⟨ids, s', hload, hgrouped, horder⟩ := loadText_groups hreached hnames hanswer
  obtain ⟨ids', s'', hload', hrearranges, hsets⟩ :=
    horder ⟨[.ok mixedRows.reverse]⟩ _ (List.reverse_perm _).symm rfl
  exact ⟨ids, s', hload, hgrouped, ids', s'', hload', hrearranges, hsets hpinned⟩

/-! While the tags of one entity of a note are committed, another entity of the note, which had left
the cache, gets one. -/

/-- The note, another one for which it leaves the cache, and the note again; then a tag. -/
def reloadAndTag : List (Action PreparedStore) :=
  [.select noteType noteType.allText, .select noteType noteType.allText,
    .select noteType noteType.allText, .mutate (.add 2 "tag" (.datum (.text "c")))]

def reloadedSession : Session PreparedStore :=
  Action.runAll (.ofStore ⟨[.ok [tagRow "http://e/n1" "a"], .ok [tagRow "http://e/n2" "b"],
    .ok [tagRow "http://e/n1" "a"], .ok [tagRow "http://e/n1" "a", tagRow "http://e/n2" "b"]]⟩
      (.ofSequence toString) 1) reloadAndTag

def displacedSession : Session PreparedStore :=
  (reloadedSession.commitDuring [.mutate (.add 0 "tag" (.datum (.text "d")))] .accepted).2

/-- The entity with a tag that waits is not pinned any more.  A load gives it if the rows have the
note first, and a new one without this tag if they have the other note first. -/
theorem order_decides_tags :
    let s := displacedSession
    let other :=
      { s with store := PreparedStore.mk [.ok [tagRow "http://e/n2" "b", tagRow "http://e/n1" "a"]] }
    let s₁ := (s.loadText noteType noteType.allText).2
    let s₂ := (other.loadText noteType noteType.allText).2
    Reached s ∧ s.dirty = [0] ∧
      (s.loadText noteType noteType.allText).1 = .ok [0, 3] ∧
      (other.loadText noteType noteType.allText).1 = .ok [3, 4] ∧
      ¬ SameSets noteType s₁ s₂ [0, 3] [3, 4] := by
  intro s other s₁ s₂
  have hreached : Reached s := ((Reached.start _ _ _).runAll reloadAndTag).commitDuring _ _
  refine ⟨hreached, by decide +kernel, by decide +kernel, by decide +kernel, fun hsets => ?_⟩
  have hfirst : (s₁.entity? 0).map (fun e => (e.uri, e.values.terms "tag")) = some ("http://e/n1",
      [.literal (.plain "a"), .literal (.plain "d")]) := by decide +kernel
  have hsecond : (s₂.entity? 4).map (fun e => (e.uri, e.values.terms "tag")) = some ("http://e/n1",
      [.literal (.plain "a")]) := by decide +kernel
  obtain ⟨e₁, he₁, htags₁⟩ := Option.map_eq_some_iff.mp hfirst
  obtain ⟨e₂, he₂, htags₂⟩ := Option.map_eq_some_iff.mp hsecond
  obtain ⟨huri₁, hterms₁⟩ := Prod.mk.inj htags₁
  obtain ⟨huri₂, hterms₂⟩ := Prod.mk.inj htags₂
  have hsame := hsets 0 (by simp) 4 (by simp) e₁ e₂ he₁ he₂ (huri₁.trans huri₂.symm)
    ⟨"tag", .literal, .many, some "http://e/tag", "Literal"⟩ (by decide) rfl
    (.literal (.plain "d"))
  rw [hterms₁, hterms₂] at hsame
  revert hsame
  decide

end Session

end EntityMapping
