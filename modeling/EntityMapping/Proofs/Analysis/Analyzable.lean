import EntityMapping.Proofs.Analysis.Ambiguous
import EntityMapping.Proofs.Analysis.Owner
import EntityMapping.Proofs.Analysis.Rearranged

/-!
Which selections can be analyzed, and which error the others meet.

The analysis asks for four things: the anchor is projected; nothing in the tree is refused and every
predicate is an IRI; every variable to be described occurs as a subject or an object; and none of
them is linked to the anchor by two predicates.  The first of these that fails decides about the
error; among the variables it is the one projected first.
-/

namespace EntityMapping

open Sparql (Algebra TriplePattern)

/-- Computations one after the other fail where the first of them fails. -/
theorem exists_first_of_mapM {ε α β : Type} {f : α → Except ε β} {l : List α} {e : ε}
    (h : l.mapM f = .error e) : ∃ before a behind, l = before ++ a :: behind ∧
      f a = .error e ∧ ∀ b ∈ before, ∃ c, f b = .ok c := by
  induction l with
  | nil => cases h
  | cons a l ih =>
      rw [List.mapM_cons] at h
      rcases bind_eq_error.mp h with hfirst | ⟨made, hmade, h⟩
      · exact ⟨[], a, l, rfl, hfirst, by simp⟩
      rcases bind_eq_error.mp h with hrest | ⟨_, -, hpure⟩
      · obtain ⟨before, b, behind, rfl, hb, hbefore⟩ := ih hrest
        exact ⟨a :: before, b, behind, rfl, hb, List.forall_mem_cons.mpr ⟨⟨made, hmade⟩, hbefore⟩⟩
      · cases hpure

namespace Pattern

variable {p child : Pattern} {ps : List Pattern} {anchor name predicate : String}

/-! ### Trees that the walk goes through -/

/-- A tree that is refused for its root alone. -/
def IsRefusal : Pattern → Prop
  | .union _ | .unsupported _ | .foreign _ => True
  | .basic _ | .group _ | .optional _ => False

/-- Nowhere in the tree is anything refused. -/
def Accepted (p : Pattern) : Prop :=
  p.Everywhere fun node => ¬ node.IsRefusal

theorem accepted_group : (group ps).Accepted ↔ ∀ p ∈ ps, p.Accepted :=
  everywhere_group.trans (and_iff_right not_false)

theorem accepted_optional : (optional p).Accepted ↔ p.Accepted :=
  everywhere_optional.trans (and_iff_right not_false)

/-- Nothing in the tree is refused, and all its predicates are IRIs. -/
structure Walkable (p : Pattern) : Prop where
  accepted : p.Accepted
  predicates : ∀ t ∈ p.triples, ∃ iri, t.predicate = .step (.iri iri)

theorem isReadable_sum (ts : List TriplePattern) : (ts.map Digest.ofTriple).sum.IsReadable ↔
    ∀ t ∈ ts, ∃ iri, t.predicate = .step (.iri iri) := by
  induction ts with
  | nil => simp
  | cons t ts ih =>
      rw [List.map_cons, List.sum_cons, Digest.isReadable_add, ih, List.forall_mem_cons]
      rfl

mutual

/-- The walkable trees are those that can be read. -/
theorem isReadable_digest (p : Pattern) : p.digest.IsReadable ↔ p.Walkable := by
  match p with
  | .basic ts =>
      rw [digest, isReadable_sum]
      exact ⟨fun h => ⟨everywhere_basic.mpr not_false, h⟩, fun h => h.predicates⟩
  | .group children =>
      rw [digest, isReadable_digestOfAll]
      exact ⟨fun h => ⟨accepted_group.mpr h.1, h.2⟩,
        fun h => ⟨accepted_group.mp h.accepted, h.predicates⟩⟩
  | .optional child =>
      change child.digest.IsReadable ↔ _
      rw [isReadable_digest child]
      exact ⟨fun h => ⟨accepted_optional.mpr h.accepted, h.predicates⟩,
        fun h => ⟨accepted_optional.mp h.accepted, h.predicates⟩⟩
  | .union branches => exact ⟨False.elim, fun h => h.accepted.root trivial⟩
  | .unsupported element => exact ⟨False.elim, fun h => h.accepted.root trivial⟩
  | .foreign text => exact ⟨False.elim, fun h => h.accepted.root trivial⟩

/-- The same for several trees. -/
theorem isReadable_digestOfAll (ps : List Pattern) : (digestOfAll ps).IsReadable ↔
    (∀ p ∈ ps, p.Accepted) ∧ ∀ t ∈ triplesOfAll ps, ∃ iri, t.predicate = .step (.iri iri) := by
  match ps with
  | [] => simp [digestOfAll, triplesOfAll]
  | p :: rest =>
      rw [digestOfAll, Digest.isReadable_add, isReadable_digest p, isReadable_digestOfAll rest,
        triplesOfAll, List.forall_mem_append, List.forall_mem_cons]
      constructor
      · rintro ⟨hfirst, haccepted, hpredicates⟩
        exact ⟨⟨hfirst.accepted, haccepted⟩, hfirst.predicates, hpredicates⟩
      · rintro ⟨⟨hfirst, haccepted⟩, hpredicates, hrest⟩
        exact ⟨⟨hfirst, hpredicates⟩, haccepted, hrest⟩

end

/-! ### Variables that can be described -/

/-- The variable is the subject or the object of some triple. -/
def Mentions (p : Pattern) (name : String) : Prop :=
  ∃ t ∈ p.triples, t.Mentions name

/-- Some triple links the anchor to the variable by the predicate. -/
def Links (p : Pattern) (anchor predicate name : String) : Prop :=
  TriplePattern.plain (.var anchor) (.iri predicate) (.var name) ∈ p.triples

/-- No two predicates link the anchor to the variable. -/
def LinksOnce (p : Pattern) (anchor name : String) : Prop :=
  ∀ predicate other, p.Links anchor predicate name → p.Links anchor other name → predicate = other

/-- The variable occurs as a subject or an object, and is not linked to the anchor by two
predicates. -/
structure Describable (p : Pattern) (anchor name : String) : Prop where
  mentioned : p.Mentions name
  linkedOnce : p.LinksOnce anchor name

/-- What is wrong with a variable that cannot be described. -/
inductive Faults (p : Pattern) (anchor name : String) : MappingError → Prop where
  | unresolved (h : ¬ p.Mentions name) : Faults p anchor name (.unresolvedType name)
  /-- The error names all predicates that link the variable to the anchor. -/
  | several {predicates : List String} (h : ¬ p.LinksOnce anchor name)
      (hall : ∀ predicate, predicate ∈ predicates ↔ p.Links anchor predicate name) :
      Faults p anchor name (.severalPredicates name predicates)

theorem Faults.not_describable {e : MappingError} (h : p.Faults anchor name e) :
    ¬ p.Describable anchor name := by
  cases h with
  | unresolved h => exact fun hdescribable => h hdescribable.mentioned
  | several h => exact fun hdescribable => h hdescribable.linkedOnce

end Pattern

/-! ### What the walk finds of a variable -/

namespace Visit

variable {p : Pattern} {visits : List Visit} {anchor name predicate : String}
  (hwalk : all p = .ok visits)

include hwalk

theorem exists_visit_iff {P : TriplePattern → Prop} :
    (∃ v ∈ visits, P v.pattern) ↔ ∃ t ∈ p.triples, P t := by
  obtain ⟨next, hvisits⟩ := all_ok hwalk
  rw [← map_pattern_ofPattern hvisits]
  simp

theorem any_hasSubject_iff :
    visits.any (hasSubject name) = true ↔ ∃ t ∈ p.triples, t.subject = .var name := by
  rw [← exists_visit_iff hwalk, List.any_eq_true]
  simp only [hasSubject, beq_iff_eq, pattern, TriplePattern.plain]

theorem rangesOf_eq_nil_iff :
    Analysis.rangesOf visits name = [] ↔ ¬ ∃ t ∈ p.triples, t.object = .var name := by
  rw [← exists_visit_iff hwalk, List.eq_nil_iff_forall_not_mem, not_exists]
  simp only [Analysis.rangesOf, List.mem_eraseDups, List.mem_map, List.mem_filter, hasObject,
    beq_iff_eq]
  constructor
  · rintro hnone v ⟨hv, hobject⟩
    exact hnone v.predicate ⟨v, ⟨hv, hobject⟩, rfl⟩
  · rintro hnone predicate ⟨v, ⟨hv, hobject⟩, -⟩
    exact hnone v ⟨hv, hobject⟩

/-- Nothing is found of a variable exactly if no triple mentions it. -/
theorem nothing_found_iff :
    ((Analysis.rangesOf visits name).isEmpty && !visits.any (hasSubject name)) = true ↔
      ¬ p.Mentions name := by
  rw [Bool.and_eq_true, List.isEmpty_iff, rangesOf_eq_nil_iff hwalk, Bool.not_eq_true',
    ← Bool.not_eq_true, any_hasSubject_iff hwalk]
  simp only [Pattern.Mentions, TriplePattern.Mentions, and_or_left, exists_or, not_or]
  exact and_comm

theorem mem_directPredicates_iff :
    predicate ∈ Analysis.directPredicates (dependencies visits) anchor name ↔
      p.Links anchor predicate name := by
  obtain ⟨_, hshows⟩ := exists_shows_of_all hwalk
  rw [Analysis.mem_directPredicates]
  constructor
  · rintro ⟨optional, hlink⟩
    exact (Dependency.pattern_mem hwalk hlink).1
  · intro hlink
    obtain ⟨v, hv, hpattern⟩ := (exists_visit_iff hwalk (P := (· = _))).mpr ⟨_, hlink, rfl⟩
    refine ⟨decide (v.context ≠ []), hshows.mem_dependencies.mpr ?_⟩
    exact (hshows.has _ _).mpr ⟨v, hv, hpattern, by simp⟩

end Visit

namespace Analysis

variable {p : Pattern} {visits : List Visit} {hints : SchemaHints} {anchor name : String}
  {e : MappingError}

/-- A variable has an owner, or none, unless two predicates lead to it. -/
theorem owningPredicate_ok {predicates : List String} {owner : Option String}
    (h : owningPredicate name predicates = .ok owner) :
    ∀ a ∈ predicates, ∀ b ∈ predicates, a = b := by
  unfold owningPredicate at h
  split at h
  · simp
  · simp
  · cases h

theorem owningPredicate_error {predicates : List String} (hnodup : predicates.Nodup)
    (h : owningPredicate name predicates = .error e) :
    (∃ a ∈ predicates, ∃ b ∈ predicates, a ≠ b) ∧
      ∃ sorted, e = .severalPredicates name sorted ∧ ∀ a, a ∈ sorted ↔ a ∈ predicates := by
  unfold owningPredicate at h
  split at h
  · cases h
  · cases h
  · next hnil hone =>
      obtain rfl := Except.error.inj h
      refine ⟨?_, _, rfl, fun a => List.mem_mergeSort⟩
      match predicates, hnil, hone with
      | [], hnil, _ => exact absurd rfl hnil
      | [a], _, hone => exact absurd rfl (hone a)
      | a :: b :: more, _, _ =>
          have hne : a ≠ b := by
            have hnot := (List.nodup_cons.mp hnodup).1
            exact fun heq => hnot (heq ▸ List.mem_cons_self)
          exact ⟨a, List.mem_cons_self, b, List.mem_cons_of_mem _ List.mem_cons_self, hne⟩

theorem describable_of_propertiesOf (hwalk : Visit.all p = .ok visits) {v : VariableProperties}
    (h : propertiesOf hints visits anchor name = .ok v) : p.Describable anchor name := by
  unfold propertiesOf at h
  rw [guard_eq_ok] at h
  obtain ⟨hfound, h⟩ := h
  obtain ⟨owner, howner, -⟩ := bind_eq_ok.mp h
  constructor
  · by_contra hnot
    rw [(Visit.nothing_found_iff hwalk).mpr hnot] at hfound
    cases hfound
  · intro predicate other hlink hother
    rw [← Visit.mem_directPredicates_iff hwalk] at hlink hother
    exact owningPredicate_ok howner predicate hlink other hother

theorem faults_of_propertiesOf (hwalk : Visit.all p = .ok visits)
    (h : propertiesOf hints visits anchor name = .error e) : p.Faults anchor name e := by
  unfold propertiesOf at h
  rcases guard_eq_error.mp h with ⟨hfound, rfl⟩ | ⟨-, h⟩
  · exact .unresolved ((Visit.nothing_found_iff hwalk).mp hfound)
  rcases bind_eq_error.mp h with howner | ⟨owner, -, hmade⟩
  · obtain ⟨⟨a, ha, b, hb, hne⟩, predicates, rfl, hall⟩ :=
      owningPredicate_error (nodup_eraseDups _) howner
    refine .several (fun honce => hne (honce a b ?_ ?_)) fun predicate => ?_
    · exact (Visit.mem_directPredicates_iff hwalk).mp ha
    · exact (Visit.mem_directPredicates_iff hwalk).mp hb
    · exact (hall predicate).trans (Visit.mem_directPredicates_iff hwalk)
  · cases hmade

end Analysis

/-! ### The first variable that cannot be described -/

namespace Sparql.Algebra

theorem exists_foldl_eq_append (names seen : List String) : ∃ more,
    names.foldl (fun seen name => if seen.contains name then seen else seen ++ [name]) seen =
      seen ++ more := by
  induction names generalizing seen with
  | nil => exact ⟨[], by simp⟩
  | cons name names ih =>
      rw [List.foldl_cons]
      split
      · exact ih seen
      · obtain ⟨more, hmore⟩ := ih (seen ++ [name])
        exact ⟨name :: more, by rw [hmore, List.append_assoc, List.singleton_append]⟩

/-- In front of the first appearance of a name are only names that come before it where each is
listed once. -/
theorem exists_first_of_distinctNames {names before behind : List String} {name : String}
    (h : distinctNames names = before ++ name :: behind) :
    ∃ front rest, names = front ++ name :: rest ∧ ∀ other ∈ front, other ∈ before := by
  have hmem : name ∈ names := mem_distinctNames.mp (by simp [h])
  obtain ⟨front, rest, rfl, hnew⟩ := List.eq_append_cons_of_mem hmem
  refine ⟨front, rest, rfl, ?_⟩
  have hnotin : (distinctNames front).contains name = false := by
    simpa [mem_distinctNames] using hnew
  obtain ⟨more, hmore⟩ : ∃ more,
      distinctNames (front ++ name :: rest) = distinctNames front ++ name :: more := by
    obtain ⟨more, hmore⟩ := exists_foldl_eq_append rest (distinctNames front ++ [name])
    refine ⟨more, ?_⟩
    rw [distinctNames, List.foldl_append, List.foldl_cons, ← distinctNames, hnotin]
    simpa using hmore
  have hnodup : (before ++ name :: behind).Nodup := h ▸ nodup_distinctNames _
  rw [List.nodup_middle, List.nodup_cons, List.mem_append, not_or] at hnodup
  obtain ⟨⟨hbefore, hbehind⟩, -⟩ := hnodup
  rw [hmore] at h
  rw [← mem_distinctNames] at hnew
  obtain ⟨hsame, -⟩ := (List.append_cons_inj_of_notMem hbefore hbehind).mp h.symm
  intro other hother
  rw [hsame]
  exact mem_distinctNames.mpr hother

end Sparql.Algebra

namespace SelectQuery

variable {q : SelectQuery} {anchor : String} {e : MappingError}

/-- The selections that can be analyzed around an anchor. -/
structure Analyzable (q : SelectQuery) (anchor : String) : Prop where
  anchored : anchor ∈ q.projected
  walkable : q.pattern.Walkable
  describable : ∀ name ∈ q.projected, name ≠ anchor → q.pattern.Describable anchor name

/-- What is wrong with the first variable, as they are projected, that cannot be described. -/
def FirstFault (q : SelectQuery) (anchor : String) (e : MappingError) : Prop :=
  ∃ before name behind, q.projected = before ++ name :: behind ∧ name ≠ anchor ∧
    q.pattern.Faults anchor name e ∧
    ∀ other ∈ before, other ≠ anchor → q.pattern.Describable anchor other

/-- The error that a selection meets which cannot be analyzed. -/
inductive Refused (q : SelectQuery) (anchor : String) : MappingError → Prop where
  | anchor (h : anchor ∉ q.projected) : Refused q anchor (.unknownAnchor anchor)
  | pattern {e : MappingError} (hanchored : anchor ∈ q.projected) (h : ¬ q.pattern.Walkable)
      (hkind : e.kind = some .unsupportedPattern) : Refused q anchor e
  | fault {e : MappingError} (hanchored : anchor ∈ q.projected)
      (hwalkable : q.pattern.Walkable) (h : q.FirstFault anchor e) : Refused q anchor e

theorem FirstFault.not_describable (h : q.FirstFault anchor e) :
    ∃ name ∈ q.projected, name ≠ anchor ∧ ¬ q.pattern.Describable anchor name := by
  obtain ⟨before, name, behind, hprojected, hne, hfaults, -⟩ := h
  exact ⟨name, by simp [hprojected], hne, hfaults.not_describable⟩

theorem Refused.not_analyzable (h : q.Refused anchor e) : ¬ q.Analyzable anchor := by
  intro hanalyzable
  cases h with
  | anchor h => exact h hanalyzable.anchored
  | pattern _ h _ => exact h hanalyzable.walkable
  | fault _ _ h =>
      obtain ⟨name, hname, hne, hnot⟩ := h.not_describable
      exact hnot (hanalyzable.describable name hname hne)

/-- Whatever is projected before a variable comes before it among those to be described too. -/
theorem exists_first_of_targets {before behind : List String} {name : String}
    (h : Analysis.targets q anchor = before ++ name :: behind) :
    ∃ front rest, q.projected = front ++ name :: rest ∧ name ≠ anchor ∧
      ∀ other ∈ front, other ≠ anchor → other ∈ before := by
  obtain ⟨kept, more, hkept, hbefore⟩ := Algebra.exists_first_of_distinctNames h
  obtain ⟨first, second, hprojected, rfl, hsecond⟩ := List.filter_eq_append_iff.mp hkept
  obtain ⟨skipped, rest, rfl, hskipped, hne, -⟩ := List.filter_eq_cons_iff.mp hsecond
  refine ⟨first ++ skipped, rest, by rw [hprojected, List.append_assoc], by simpa using hne, ?_⟩
  intro other hother hnot
  rcases List.mem_append.mp hother with hother | hother
  · exact hbefore other (List.mem_filter.mpr ⟨hother, by simpa using hnot⟩)
  · exact absurd (hskipped other hother) (by simpa using hnot)

end SelectQuery

namespace Analysis

variable {q : SelectQuery} {anchor : String} {hints : SchemaHints} {e : MappingError}

theorem mem_targets {name : String} :
    name ∈ targets q anchor ↔ name ∈ q.projected ∧ name ≠ anchor := by
  rw [targets, Algebra.mem_distinctNames, List.mem_filter, bne_iff_ne]

theorem analyzable_of_derive {a : Analysis} (h : derive q anchor hints = .ok a) :
    q.Analyzable anchor := by
  obtain ⟨visits, hmade⟩ := exists_madeOf h
  have hread := Visit.judges_all q.pattern
  rw [hmade.walk] at hread
  refine ⟨hmade.projected, (Pattern.isReadable_digest _).mp hread, ?_⟩
  intro name hprojected hne
  have htarget : name ∈ a.described.map Prod.fst := by
    rw [EntityType.names_derive h, mem_targets]
    exact ⟨hprojected, hne⟩
  obtain ⟨⟨_, v⟩, hv, rfl⟩ := List.mem_map.mp htarget
  exact describable_of_propertiesOf hmade.walk (hmade.described _ v hv).2

theorem refused_of_derive (h : derive q anchor hints = .error e) : q.Refused anchor e := by
  unfold derive at h
  rcases guard_eq_error.mp h with ⟨hanchor, rfl⟩ | ⟨hanchor, h⟩
  · exact .anchor (by simpa using hanchor)
  have hanchored : anchor ∈ q.projected := by simpa using hanchor
  have hread := Visit.judges_all q.pattern
  rcases bind_eq_error.mp h with hwalk | ⟨visits, hwalk, h⟩
  · rw [hwalk] at hread
    exact .pattern hanchored (fun hwalkable =>
      hread.1 ((Pattern.isReadable_digest _).mpr hwalkable)) hread.2
  rw [hwalk] at hread
  refine .fault hanchored ((Pattern.isReadable_digest _).mp hread) ?_
  rcases bind_eq_error.mp h with hdescribed | ⟨_, -, hpure⟩
  · obtain ⟨before, name, behind, htargets, hname, hbefore⟩ := exists_first_of_mapM hdescribed
    obtain ⟨front, rest, hprojected, hne, hfront⟩ := SelectQuery.exists_first_of_targets htargets
    refine ⟨front, name, rest, hprojected, hne, ?_, ?_⟩
    · rcases bind_eq_error.mp hname with hfault | ⟨_, -, hpure⟩
      · exact faults_of_propertiesOf hwalk hfault
      · cases hpure
    · intro other hother hnot
      obtain ⟨entry, hentry⟩ := hbefore other (hfront other hother hnot)
      obtain ⟨v, hv, -⟩ := bind_eq_ok.mp hentry
      exact describable_of_propertiesOf hwalk hv
  · cases hpure

/-- A selection is analyzed exactly if that is possible, whatever is known about its predicates, and
then the variables described are those projected besides the anchor.  Otherwise the error is that of
the first condition that fails. -/
theorem derive_outcome (q : SelectQuery) (anchor : String) (hints : SchemaHints) :
    ((∃ a, derive q anchor hints = .ok a) ↔ q.Analyzable anchor) ∧
    (∀ a, derive q anchor hints = .ok a → (a.described.map Prod.fst).Nodup ∧
      ∀ name, name ∈ a.described.map Prod.fst ↔ name ∈ q.projected ∧ name ≠ anchor) ∧
    ∀ e, derive q anchor hints = .error e → q.Refused anchor e := by
  refine ⟨⟨fun ⟨a, ha⟩ => analyzable_of_derive ha, ?_⟩, ?_, fun e => refused_of_derive⟩
  · intro hanalyzable
    cases h : derive q anchor hints with
    | ok a => exact ⟨a, rfl⟩
    | error e => exact absurd hanalyzable (refused_of_derive h).not_analyzable
  · intro a ha
    rw [EntityType.names_derive ha]
    exact ⟨Algebra.nodup_distinctNames _, fun name => mem_targets⟩

end Analysis

end EntityMapping
