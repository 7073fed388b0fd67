import EntityMapping.Proofs.Analysis.Digest
import EntityMapping.Proofs.Analysis.Functional
import Mathlib.Data.List.Perm.Basic
import Mathlib.Data.String.Basic

/-!
The analysis does not depend on how a pattern is written down, nor on what else is projected.

Triples and the members of a group may be put in another order, a group inside a group may be
spliced into it, and a block of triples may be split.  All of this leaves the digest of the pattern
as it is, and what the analysis finds is in the digest.
-/

namespace EntityMapping

open Sparql (TriplePattern)

namespace Pattern

/-- Two patterns that are the same one, written down in different ways. -/
inductive Rearranged : Pattern → Pattern → Prop where
  | triples {ts us : List TriplePattern} (h : ts.Perm us) : Rearranged (.basic ts) (.basic us)
  | children {ps qs : List Pattern} (h : ps.Perm qs) : Rearranged (.group ps) (.group qs)
  /-- A group inside a group is spliced into it. -/
  | splice (before inner behind : List Pattern) :
      Rearranged (.group (before ++ .group inner :: behind)) (.group (before ++ inner ++ behind))
  /-- A block of triples in a group is split in two. -/
  | split (before behind : List Pattern) (ts us : List TriplePattern) :
      Rearranged (.group (before ++ .basic (ts ++ us) :: behind))
        (.group (before ++ .basic ts :: .basic us :: behind))
  | inGroup {p q : Pattern} (before behind : List Pattern) (h : Rearranged p q) :
      Rearranged (.group (before ++ p :: behind)) (.group (before ++ q :: behind))
  | inOptional {p q : Pattern} (h : Rearranged p q) : Rearranged (.optional p) (.optional q)
  | inUnion {p q : Pattern} (before behind : List Pattern) (h : Rearranged p q) :
      Rearranged (.union (before ++ p :: behind)) (.union (before ++ q :: behind))
  | refl (p : Pattern) : Rearranged p p
  | symm {p q : Pattern} (h : Rearranged p q) : Rearranged q p
  | trans {p q r : Pattern} (h : Rearranged p q) (hmore : Rearranged q r) : Rearranged p r

theorem digestOfAll_append (ps qs : List Pattern) :
    digestOfAll (ps ++ qs) = digestOfAll ps + digestOfAll qs := by
  simp only [digestOfAll_eq, List.map_append, List.sum_append]

/-- Patterns that are written down in different ways have one digest. -/
theorem Rearranged.digest_eq {p q : Pattern} (h : Rearranged p q) : p.digest = q.digest := by
  induction h with
  | triples h => exact (h.map Digest.ofTriple).sum_eq
  | children h =>
      rw [digest, digest, digestOfAll_eq, digestOfAll_eq]
      exact (h.map digest).sum_eq
  | splice before inner behind =>
      simp only [digest, digestOfAll_append, digestOfAll, add_assoc]
  | split before behind ts us =>
      simp only [digest, digestOfAll_append, digestOfAll, List.map_append, List.sum_append,
        add_assoc]
  | inGroup before behind _ ih => simp only [digest, digestOfAll_append, digestOfAll, ih]
  | inOptional _ ih => rw [digest, digest, ih]
  | inUnion before behind _ ih => simp only [digest, digestOfAll_append, digestOfAll, ih]
  | refl p => rfl
  | symm _ ih => exact ih.symm
  | trans _ _ ih ihmore => exact ih.trans ihmore

end Pattern

/-! ### Lists without duplicates -/

theorem nodup_eraseDups {α : Type} [BEq α] [LawfulBEq α] (l : List α) : l.eraseDups.Nodup := by
  match l with
  | [] => exact List.nodup_nil
  | a :: rest =>
      rw [List.eraseDups_cons, List.nodup_cons, List.mem_eraseDups]
      refine ⟨by simp, nodup_eraseDups _⟩
termination_by l.length
decreasing_by exact Nat.lt_succ_of_le (List.length_filter_le _ _)

theorem perm_eraseDups {α : Type} [BEq α] [LawfulBEq α] {l others : List α}
    (h : ∀ a, a ∈ l ↔ a ∈ others) : l.eraseDups.Perm others.eraseDups :=
  (List.perm_ext_iff_of_nodup (nodup_eraseDups l) (nodup_eraseDups others)).mpr fun a => by
    rw [List.mem_eraseDups, List.mem_eraseDups, h]

namespace Analysis

variable {ps qs : List String} {name : String}

theorem sole?_perm (h : ps.Perm qs) : sole? ps = sole? qs := by
  match ps, h with
  | [], h => rw [h.nil_eq]
  | [p], h => rw [List.perm_singleton.mp h.symm]
  | p :: r :: more, h =>
      have hlength := h.length_eq
      match qs, hlength with
      | _ :: _ :: _, _ => rfl

/-- The predicates are named in ascending order where there are several. -/
theorem owningPredicate_perm (h : ps.Perm qs) :
    owningPredicate name ps = owningPredicate name qs := by
  match ps, h with
  | [], h => rw [h.nil_eq]
  | [p], h => rw [List.perm_singleton.mp h.symm]
  | p :: r :: more, h =>
      have hsorted : (p :: r :: more).mergeSort (fun a b => decide (a ≤ b)) =
          qs.mergeSort fun a b => decide (a ≤ b) := by
        have hordered : ∀ l : List String,
            (l.mergeSort fun a b => decide (a ≤ b)).Pairwise (· ≤ ·) := fun l =>
          (List.pairwise_mergeSort (by simpa using fun a b c => le_trans)
            (by simpa using le_total) l).imp (by simp)
        refine List.Perm.eq_of_pairwise (fun a b _ _ => le_antisymm) (hordered _) (hordered _) ?_
        exact ((List.mergeSort_perm _ _).trans h).trans (List.mergeSort_perm _ _).symm
      have hlength := h.length_eq
      match qs, hlength, hsorted with
      | _ :: _ :: _, _, hsorted =>
          exact congrArg (fun sorted => Except.error (MappingError.severalPredicates name sorted))
            hsorted

end Analysis

/-- What is reached does not depend on the order of the edges. -/
theorem Reach.contains_closure_perm {α : Type} [DecidableEq α] {edges more : List (α × α)}
    (h : edges.Perm more) (start x : α) :
    (closure edges start).contains x = (closure more start).contains x := by
  have hsteps : Step edges = Step more := by
    funext a b
    exact propext h.mem_iff
  rw [Bool.eq_iff_iff, List.contains_iff_mem, List.contains_iff_mem, mem_closure, mem_closure,
    Path, Path, hsteps]

namespace Dependency

variable {ds more : List Dependency}

theorem edges_perm (h : ds.Perm more) : (edges ds).Perm (edges more) :=
  h.flatMap_right _

theorem functionalEdges_perm (h : ds.Perm more) (isOneToMany : String → Bool) :
    (functionalEdges isOneToMany ds).Perm (functionalEdges isOneToMany more) :=
  h.flatMap_right _

end Dependency

/-! ### Two walks that show one digest -/

namespace Visit.Shows

open Analysis

variable {low high low' high' : Nat} {d : Digest} {visits others : List Visit}
  (h : Shows [] low high d visits) (hothers : Shows [] low' high' d others)
  (hints : SchemaHints) (anchor name : String)

include h hothers

theorem dependencies_perm : (dependencies visits).Perm (dependencies others) :=
  perm_eraseDups fun link => by
    rw [← List.mem_eraseDups, ← List.mem_eraseDups (l := others.filterMap dependency?)]
    exact h.mem_dependencies.trans hothers.mem_dependencies.symm

theorem rangesOf_perm : (rangesOf visits name).Perm (rangesOf others name) :=
  (List.perm_ext_iff_of_nodup (nodup_eraseDups _) (nodup_eraseDups _)).mpr fun _ =>
    h.mem_rangesOf.trans hothers.mem_rangesOf.symm

theorem directPredicates_perm :
    (directPredicates (dependencies visits) anchor name).Perm
      (directPredicates (dependencies others) anchor name) :=
  perm_eraseDups fun p => by
    have hsame := ((h.dependencies_perm hothers).filter fun d =>
      d.subject == anchor && d.object == name).map Dependency.predicate
    exact hsame.mem_iff

theorem any_hasSubject_eq :
    visits.any (hasSubject name) = others.any (hasSubject name) :=
  Bool.eq_iff_iff.mpr (h.any_hasSubject.trans hothers.any_hasSubject.symm)

theorem isNullable_eq : isNullable visits name = isNullable others name :=
  Bool.eq_iff_iff.mpr (h.isNullable_iff.trans hothers.isNullable_iff.symm)

theorem isAmbiguous_eq : isAmbiguous visits name = isAmbiguous others name :=
  Bool.eq_iff_iff.mpr (h.isAmbiguous_iff.trans hothers.isAmbiguous_iff.symm)

theorem isFunctional_eq : isFunctional hints (dependencies visits) anchor name =
    isFunctional hints (dependencies others) anchor name := by
  have hperm := h.dependencies_perm hothers
  rw [isFunctional, isFunctional, Reach.contains_closure_perm (Dependency.edges_perm hperm),
    Reach.contains_closure_perm (Dependency.functionalEdges_perm hperm hints.isOneToMany)]

/-- Of each variable the same is found. -/
theorem propertiesOf_eq : propertiesOf hints visits anchor name =
    propertiesOf hints others anchor name := by
  have hranges := h.rangesOf_perm hothers name
  simp only [propertiesOf, hranges.isEmpty_eq, sole?_perm hranges,
    h.any_hasSubject_eq hothers name, h.isNullable_eq hothers name,
    h.isFunctional_eq hothers hints anchor name,
    owningPredicate_perm (h.directPredicates_perm hothers anchor name)]

end Visit.Shows

namespace Analysis

/-- Two analyses that say the same; links may have been met in another order. -/
structure Agrees (a b : Analysis) : Prop where
  anchor : a.anchor = b.anchor
  described : a.described = b.described
  ambiguous : a.ambiguous = b.ambiguous
  dependencies : a.dependencies.Perm b.dependencies

/-- Two analyses that say the same, or two errors of one kind. -/
def SameOutcome : Except MappingError Analysis → Except MappingError Analysis → Prop
  | .ok a, .ok b => a.Agrees b
  | .error e, .error f => e.kind = f.kind
  | _, _ => False

/-- What is made of the visits of a walk. -/
def ofVisits (hints : SchemaHints) (anchor : String) (names : List String)
    (visits : List Visit) : Except MappingError Analysis := do
  let described ← names.mapM fun name => do
    return (name, ← propertiesOf hints visits anchor name)
  return {
    anchor := anchor
    described := described
    dependencies := Visit.dependencies visits
    ambiguous := names.filter (isAmbiguous visits) }

theorem derive_eq (q : SelectQuery) (anchor : String) (hints : SchemaHints) :
    derive q anchor hints =
      if !q.projected.contains anchor then .error (.unknownAnchor anchor)
      else Visit.all q.pattern >>= ofVisits hints anchor (targets q anchor) := by
  unfold derive
  split
  · rfl
  · rfl

/-- Of the visits of two walks that show one digest the same is made. -/
theorem sameOutcome_ofVisits {low high low' high' : Nat} {d : Digest} {visits others : List Visit}
    (h : Visit.Shows [] low high d visits) (hothers : Visit.Shows [] low' high' d others)
    (hints : SchemaHints) (anchor : String) (names : List String) :
    SameOutcome (ofVisits hints anchor names visits) (ofVisits hints anchor names others) := by
  have hproperties : propertiesOf hints visits anchor = propertiesOf hints others anchor :=
    funext (h.propertiesOf_eq hothers hints anchor)
  have hambiguous : isAmbiguous visits = isAmbiguous others :=
    funext (h.isAmbiguous_eq hothers)
  unfold ofVisits
  rw [hproperties, hambiguous]
  cases names.mapM fun name => do return (name, ← propertiesOf hints others anchor name) with
  | error e => exact rfl
  | ok described => exact ⟨rfl, rfl, rfl, h.dependencies_perm hothers⟩

variable {q q' : SelectQuery} {anchor : String} {hints : SchemaHints}

/-- Selections with one projection and patterns of one digest are analyzed alike. -/
theorem sameOutcome_of_digest (hprojected : q.projected = q'.projected)
    (hdigest : q.pattern.digest = q'.pattern.digest) :
    SameOutcome (derive q anchor hints) (derive q' anchor hints) := by
  have hread := Visit.judges_all q.pattern
  have hread' := Visit.judges_all q'.pattern
  rw [← hdigest] at hread'
  rw [derive_eq, derive_eq, targets, targets, hprojected]
  split
  · exact rfl
  cases hvisits : Visit.all q.pattern with
  | error e =>
      rw [hvisits] at hread
      cases hothers : Visit.all q'.pattern with
      | error f =>
          rw [hothers] at hread'
          exact hread.2.trans hread'.2.symm
      | ok others =>
          rw [hothers] at hread'
          exact absurd hread' hread.1
  | ok visits =>
      rw [hvisits] at hread
      cases hothers : Visit.all q'.pattern with
      | error f =>
          rw [hothers] at hread'
          exact absurd hread hread'.1
      | ok others =>
          obtain ⟨_, hshows⟩ := Visit.exists_shows_of_all hvisits
          obtain ⟨_, hshows'⟩ := Visit.exists_shows_of_all hothers
          exact sameOutcome_ofVisits hshows (hdigest ▸ hshows') hints anchor _

/-- How a pattern is written down makes no difference to its analysis, and what else is projected
makes none to what is found of a variable. -/
theorem derive_rearranged (h : q.pattern.Rearranged q'.pattern) :
    (q.projected = q'.projected →
      SameOutcome (derive q anchor hints) (derive q' anchor hints)) ∧
    ∀ a b, derive q anchor hints = .ok a → derive q' anchor hints = .ok b →
      ∀ name v w, (name, v) ∈ a.described → (name, w) ∈ b.described →
        v = w ∧ (name ∈ a.ambiguous ↔ name ∈ b.ambiguous) := by
  refine ⟨fun hprojected => sameOutcome_of_digest hprojected h.digest_eq, ?_⟩
  intro a b ha hb name v w hv hw
  constructor
  · obtain ⟨visits, hmade⟩ := exists_madeOf ha
    obtain ⟨others, hmade'⟩ := exists_madeOf hb
    obtain ⟨_, hshows⟩ := Visit.exists_shows_of_all hmade.walk
    obtain ⟨_, hshows'⟩ := Visit.exists_shows_of_all hmade'.walk
    have hleft := (hmade.described name v hv).2
    have hright := (hmade'.described name w hw).2
    rw [← hshows.propertiesOf_eq (h.digest_eq ▸ hshows') hints anchor name, hleft] at hright
    exact Except.ok.inj hright
  · rw [mem_ambiguous ha, mem_ambiguous hb, h.digest_eq]
    exact and_congr_left fun _ => iff_of_true (List.mem_map_of_mem hv) (List.mem_map_of_mem hw)

/-- A note with its title, its author, and a remark about either. -/
def remarkedTwice : Pattern :=
  .group [
    .basic [.plain (.var "note") (.iri "e:title") (.var "title"),
      .plain (.var "note") (.iri "e:author") (.var "person")],
    .optional (.basic [.plain (.var "note") (.iri "e:remark") (.var "remark")]),
    .optional (.basic [.plain (.var "person") (.iri "e:remark") (.var "remark")])]

/-- The same, with the optional parts around the others and these in a group of their own. -/
def remarkedAround : Pattern :=
  .group [
    .optional (.basic [.plain (.var "person") (.iri "e:remark") (.var "remark")]),
    .group [
      .basic [.plain (.var "note") (.iri "e:author") (.var "person")],
      .basic [.plain (.var "note") (.iri "e:title") (.var "title")]],
    .optional (.basic [.plain (.var "note") (.iri "e:remark") (.var "remark")])]

theorem rearranged_remarked : remarkedTwice.Rearranged remarkedAround :=
  .trans (.inGroup [] _ (.triples (.swap _ _ []))) <|
  .trans (.split [] _ [_] [_]) <|
  .trans (.children (show ([_, _, _] ++ [_]).Perm ([_] ++ [_, _, _]) from
    List.perm_append_comm)) <|
  .symm (.splice [_] [_, _] [_])

/-- The two patterns are analyzed alike, and the person in place of the title changes nothing for
the remark. -/
theorem derive_rearranged_remark :
    ∃ a b c v w,
      derive (.ofPattern ["note", "title", "remark"] remarkedTwice) "note" .none = .ok a ∧
      derive (.ofPattern ["note", "title", "remark"] remarkedAround) "note" .none = .ok b ∧
      derive (.ofPattern ["remark", "person", "note"] remarkedAround) "note" .none = .ok c ∧
      a.Agrees b ∧ ("remark", v) ∈ a.described ∧ ("remark", w) ∈ c.described ∧ v = w ∧
      ("remark" ∈ a.ambiguous ↔ "remark" ∈ c.ambiguous) := by
  let twice := SelectQuery.ofPattern ["note", "title", "remark"] remarkedTwice
  let around := SelectQuery.ofPattern ["note", "title", "remark"] remarkedAround
  let other := SelectQuery.ofPattern ["remark", "person", "note"] remarkedAround
  obtain ⟨a, ha, v, hv⟩ : ∃ a, derive twice "note" .none = .ok a ∧
    ∃ v, ("remark", v) ∈ a.described := ⟨_, rfl, _, List.mem_cons_of_mem _ List.mem_cons_self⟩
  obtain ⟨b, hb⟩ : ∃ b, derive around "note" .none = .ok b := ⟨_, rfl⟩
  obtain ⟨c, hc, w, hw⟩ : ∃ c, derive other "note" .none = .ok c ∧
    ∃ w, ("remark", w) ∈ c.described := ⟨_, rfl, _, List.mem_cons_self⟩
  have hagrees : SameOutcome (derive twice "note" .none) (derive around "note" .none) :=
    (derive_rearranged rearranged_remarked).1 rfl
  rw [ha, hb] at hagrees
  exact ⟨a, b, c, v, w, ha, hb, hc, hagrees, hv, hw,
    (derive_rearranged rearranged_remarked).2 a c ha hc "remark" v w hv hw⟩

end Analysis

end EntityMapping
