import EntityMapping.Proofs.Sparql.Admitted
import EntityMapping.Proofs.Sparql.Effects
import EntityMapping.Proofs.Sparql.Nesting

/-!
Bodies whose triples all lead from one variable, the anchor, to variables of their own.

Each triple stands outside the optional parts or is all of one.  Handed an IRI for the anchor, such
a body is answered by every combination of the objects that the graph has for the IRI, one for each
triple.  An optional part without an object leaves its variable unbound, in whatever place it
stands, since the anchor is known in it.
-/

namespace EntityMapping.Sparql

/-- A triple from the anchor to a variable, outside all optional parts or all of one. -/
structure Clause where
  predicate : String
  name : String
  isOptional : Bool
  deriving DecidableEq, Repr

namespace Clause

def triple (anchor : String) (c : Clause) : TriplePattern :=
  .plain (.var anchor) (.iri c.predicate) (.var c.name)

/-- The clause as a part of a group. -/
def part (anchor : String) (c : Clause) : GroupPart :=
  if c.isOptional then .optional (.ofAlgebra (.bgp [c.triple anchor]))
  else .triples [c.triple anchor]

end Clause

/-- Clauses with predicates and variables of their own, at least one of them not optional. -/
structure Star where
  anchor : String
  clauses : List Clause
  names : (anchor :: clauses.map Clause.name).Nodup
  predicates : (clauses.map Clause.predicate).Nodup
  required : ∃ c ∈ clauses, c.isOptional = false

/-- The pattern of a star, its clauses in order. -/
def Star.body (b : Star) : Algebra :=
  (GroupPattern.ofParts (b.clauses.map (Clause.part b.anchor))).algebra

/-! ### What solutions bind -/

namespace Solution

/-- One solution says more than another, behind what that one says. -/
def Longer (s u : Solution) : Prop :=
  ∃ more, u = s ++ more ∧ ∀ entry ∈ more, s.binds entry.1 = false

theorem Longer.refl (s : Solution) : s.Longer s :=
  ⟨[], (List.append_nil s).symm, nofun⟩

theorem term?_append (s more : Solution) (name : String) :
    term? (s ++ more) name = (s.term? name).or (more.term? name) :=
  List.lookup_append

theorem Longer.trans {s u v : Solution} (h : s.Longer u) (hmore : u.Longer v) : s.Longer v := by
  obtain ⟨more, rfl, hnew⟩ := h
  obtain ⟨most, rfl, hnewer⟩ := hmore
  refine ⟨more ++ most, List.append_assoc s more most, fun entry hentry => ?_⟩
  rcases List.mem_append.mp hentry with hentry | hentry
  · exact hnew entry hentry
  · have hfree := hnewer entry hentry
    rw [binds, term?_append] at hfree
    rw [binds]
    cases hs : s.term? entry.1 with
    | none => rfl
    | some known => simp [hs] at hfree

theorem binds_of_mem {s : Solution} {entry : String × Term} (h : entry ∈ s) :
    s.binds entry.1 = true := by
  rw [binds, term?, List.lookup_isSome_iff]
  exact ⟨entry, h, beq_self_eq_true entry.1⟩

theorem Longer.merge_eq {s u : Solution} (h : s.Longer u) : s.merge u = u := by
  obtain ⟨more, rfl, hnew⟩ := h
  have hold : s.filter (fun entry => !s.binds entry.1) = [] :=
    List.filter_eq_nil_iff.mpr fun entry hentry => by simp [binds_of_mem hentry]
  have hmore : more.filter (fun entry => !s.binds entry.1) = more :=
    List.filter_eq_self.mpr fun entry hentry => by simp [hnew entry hentry]
  exact congrArg (s ++ ·) ((List.filter_append s more).trans (hold.symm ▸ hmore))

end Solution

/-! ### Joins and optional parts -/

namespace Algebra

variable {g : Graph} {p q : Algebra} {given : Solution}

theorem eq_empty_of_isEmpty (h : p.isEmpty = true) : p = .empty := by
  unfold Algebra.isEmpty at h
  split at h
  · rfl
  · contradiction

theorem takesBindings_joined (hp : p.takesBindings = true)
    (hq : q.takesBindings = true) : (joined p q).takesBindings = true := by
  unfold joined
  split
  · exact hq
  · split
    · exact hp
    · rfl

theorem mem_mentioned_joined {name : String} (h : name ∈ q.mentioned) :
    name ∈ (joined p q).mentioned := by
  unfold joined
  split
  · exact h
  · split
    · next hempty =>
        obtain rfl := eq_empty_of_isEmpty hempty
        contradiction
    · exact List.mem_append_right _ h

/-- What is joined to a pattern is answered from each of its answers. -/
theorem answers_joined (hp : p.takesBindings = true)
    (hq : q.takesBindings = true)
    (hlonger : ∀ s ∈ p.answers g given, ∀ u ∈ q.answers g s, s.Longer u) :
    (joined p q).answers g given = (p.answers g given).flatMap (q.answers g) := by
  unfold joined
  split
  · next hempty =>
      obtain rfl := eq_empty_of_isEmpty hempty
      exact (List.flatMap_singleton _ _).symm
  · split
    · next hempty =>
        obtain rfl := eq_empty_of_isEmpty hempty
        exact (List.flatMap_singleton' _).symm
    · rw [answers, hp, hq, Bool.and_self, if_pos rfl]
      refine List.flatMap_congr fun s hs => ?_
      exact (List.map_congr_left fun u hu => (hlonger s hs u hu).merge_eq).trans (List.map_id _)

/-- An optional part without a condition. -/
theorem answers_leftJoin (p q : Algebra) (given : Solution) :
    (leftJoin p q none).answers g given = (p.answers g given).flatMap fun s =>
      match (q.answers g s).map s.merge with
      | [] =>
        let own := s.restrict p.mentioned
        if (q.answers g (if own.isEmpty then given else own)).isEmpty then [s] else []
      | found => found := by
  refine List.flatMap_congr fun s _ => ?_
  simp only [Option.all_none, List.filter_true]
  cases (q.answers g s).map s.merge with
  | nil => cases q.answers g _ <;> rfl
  | cons first found => rfl

end Algebra

/-! ### Clause by clause -/

namespace Clause

variable {g : Graph} {anchor iri : String} {c : Clause} {cs : List Clause} {s u : Solution}

/-- The objects that a graph has for an IRI under the predicate of a clause. -/
def objects (g : Graph) (iri : String) (c : Clause) : List Term :=
  g.objects (.iri iri) (.iri c.predicate)

/-- The solutions that bind the variable of the clause as well. -/
def matched (g : Graph) (iri : String) (c : Clause) (s : Solution) : List Solution :=
  (c.objects g iri).map fun o => s ++ [(c.name, o)]

/-- What a clause makes of a solution; one that is optional may leave it as it is. -/
def extended (g : Graph) (iri : String) (c : Clause) (s : Solution) : List Solution :=
  if c.isOptional && (c.objects g iri).isEmpty then [s] else c.matched g iri s

/-- What clauses make of a solution, one after the other. -/
def solve (g : Graph) (iri : String) : List Clause → Solution → List Solution
  | [], s => [s]
  | c :: rest, s => (c.extended g iri s).flatMap (solve g iri rest)

/-- A solution to which the clauses come new: it has the IRI for the anchor and nothing for their
variables. -/
structure Ready (anchor iri : String) (cs : List Clause) (s : Solution) : Prop where
  anchored : s.term? anchor = some (.iri iri)
  free : ∀ c ∈ cs, s.term? c.name = none

theorem ready_point (hnames : (anchor :: cs.map name).Nodup) :
    Ready anchor iri cs (Algebra.point anchor iri) where
  anchored := by rw [Algebra.term?_point, if_pos rfl]
  free c hc := by
    rw [Algebra.term?_point, if_neg]
    rintro rfl
    exact (List.nodup_cons.mp hnames).1 (List.mem_map_of_mem hc)

theorem term?_bound (s : Solution) (name : String) (o : Term) (other : String) :
    Solution.term? (s ++ [(name, o)]) other =
      (s.term? other).or (if other = name then some o else none) := by
  rw [Solution.term?_append]
  congr 1
  by_cases hother : other = name
  · simp [Solution.term?, hother]
  · simp [Solution.term?, List.lookup_cons, beq_false_of_ne hother, hother]

theorem Ready.bound (h : Ready anchor iri (c :: cs) s) (hnames : ((c :: cs).map name).Nodup)
    (o : Term) : Ready anchor iri cs (s ++ [(c.name, o)]) where
  anchored := by
    rw [term?_bound, h.anchored]
    rfl
  free d hd := by
    have hne : d.name ≠ c.name := fun heq =>
      (List.nodup_cons.mp hnames).1 (heq ▸ List.mem_map_of_mem hd)
    rw [term?_bound, h.free d (List.mem_cons_of_mem c hd), if_neg hne]
    rfl

theorem Ready.extended (h : Ready anchor iri (c :: cs) s) (hnames : ((c :: cs).map name).Nodup)
    (hu : u ∈ c.extended g iri s) : Ready anchor iri cs u := by
  unfold Clause.extended at hu
  split at hu
  · obtain rfl := List.mem_singleton.mp hu
    exact ⟨h.anchored, fun d hd => h.free d (List.mem_cons_of_mem c hd)⟩
  · obtain ⟨o, -, rfl⟩ := List.mem_map.mp hu
    exact h.bound hnames o

theorem Ready.solve {rest : List Clause} (h : Ready anchor iri (cs ++ rest) s)
    (hnames : ((cs ++ rest).map name).Nodup) (hu : u ∈ solve g iri cs s) :
    Ready anchor iri rest u := by
  induction cs generalizing s with
  | nil => exact List.mem_singleton.mp hu ▸ h
  | cons c cs ih =>
      obtain ⟨v, hv, hrest⟩ := List.mem_flatMap.mp hu
      exact ih (h.extended hnames hv) (List.nodup_cons.mp hnames).2 hrest

theorem Ready.take {rest : List Clause} (h : Ready anchor iri (cs ++ rest) s) :
    Ready anchor iri cs s where
  anchored := h.anchored
  free c hc := h.free c (List.mem_append_left rest hc)

theorem longer_bound {name : String} (h : s.term? name = none) (o : Term) :
    s.Longer (s ++ [(name, o)]) := by
  refine ⟨[(name, o)], rfl, fun entry hentry => ?_⟩
  obtain rfl := List.mem_singleton.mp hentry
  rw [Solution.binds, h]
  rfl

theorem longer_extended (h : s.term? c.name = none) (hu : u ∈ c.extended g iri s) :
    s.Longer u := by
  unfold Clause.extended at hu
  split at hu
  · exact List.mem_singleton.mp hu ▸ .refl s
  · obtain ⟨o, -, rfl⟩ := List.mem_map.mp hu
    exact longer_bound h o

theorem longer_solve (hnames : (cs.map name).Nodup) (h : Ready anchor iri cs s)
    (hu : u ∈ solve g iri cs s) : s.Longer u := by
  induction cs generalizing s with
  | nil => exact List.mem_singleton.mp hu ▸ .refl s
  | cons c cs ih =>
      obtain ⟨v, hv, hu⟩ := List.mem_flatMap.mp hu
      have hfirst := longer_extended (h.free c List.mem_cons_self) hv
      exact hfirst.trans (ih (List.nodup_cons.mp hnames).2 (h.extended hnames hv) hu)

theorem solve_append (cs others : List Clause) (s : Solution) :
    solve g iri (cs ++ others) s = (solve g iri cs s).flatMap (solve g iri others) := by
  induction cs generalizing s with
  | nil => simp [solve]
  | cons c cs ih =>
      rw [List.cons_append, solve, solve, List.flatMap_assoc]
      exact congrArg (List.flatMap · _) (funext ih)

/-! ### What is found for an IRI -/

theorem term?_extended {other : String} (hother : other ≠ c.name) (hu : u ∈ c.extended g iri s) :
    u.term? other = s.term? other := by
  unfold Clause.extended at hu
  split at hu
  · rw [List.mem_singleton.mp hu]
  · obtain ⟨o, -, rfl⟩ := List.mem_map.mp hu
    rw [term?_bound, if_neg hother, Option.or_none]

theorem term?_solve {other : String} (hother : other ∉ cs.map name) (hu : u ∈ solve g iri cs s) :
    u.term? other = s.term? other := by
  induction cs generalizing s with
  | nil => rw [List.mem_singleton.mp hu]
  | cons c cs ih =>
      obtain ⟨v, hv, hrest⟩ := List.mem_flatMap.mp hu
      rw [List.map_cons, List.mem_cons, not_or] at hother
      rw [ih hother.2 hrest, term?_extended hother.1 hv]

/-- Whatever a solution binds to the variable of a clause is one of its objects. -/
theorem mem_objects_of_mem_solve (hnames : (cs.map name).Nodup) (h : Ready anchor iri cs s)
    (hu : u ∈ solve g iri cs s) (hc : c ∈ cs) {o : Term} (ho : u.term? c.name = some o) :
    o ∈ c.objects g iri := by
  induction cs generalizing s with
  | nil => contradiction
  | cons first cs ih =>
      obtain ⟨v, hv, hrest⟩ := List.mem_flatMap.mp hu
      rw [List.map_cons, List.nodup_cons] at hnames
      rcases List.mem_cons.mp hc with heq | hc
      · subst heq
        rw [term?_solve hnames.1 hrest] at ho
        unfold Clause.extended at hv
        split at hv
        · rw [List.mem_singleton.mp hv, h.free c List.mem_cons_self] at ho
          contradiction
        · obtain ⟨found, hfound, rfl⟩ := List.mem_map.mp hv
          rw [term?_bound, h.free c List.mem_cons_self, if_pos rfl] at ho
          exact Option.some.inj ho ▸ hfound
      · exact ih hnames.2 (h.extended (List.nodup_cons.mpr hnames) hv) hrest hc

theorem extended_ne_nil (h : c.isOptional = false → c.objects g iri ≠ []) (s : Solution) :
    c.extended g iri s ≠ [] := by
  unfold Clause.extended
  split
  · exact List.cons_ne_nil s []
  · next hsome =>
      rw [Clause.matched, Ne, List.map_eq_nil_iff]
      cases hoptional : c.isOptional with
      | false => exact h hoptional
      | true => simpa [hoptional] using hsome

theorem matched_subset_extended (hu : u ∈ c.matched g iri s) : u ∈ c.extended g iri s := by
  unfold Clause.extended
  split
  · next hnone =>
      obtain ⟨o, ho, -⟩ := List.mem_map.mp hu
      rw [Bool.and_eq_true, List.isEmpty_iff] at hnone
      exact absurd ho (hnone.2 ▸ List.not_mem_nil)
  · exact hu

/-- Where every clause that is not optional has an object, there are solutions. -/
theorem solve_ne_nil (h : ∀ c ∈ cs, c.isOptional = false → c.objects g iri ≠ []) (s : Solution) :
    solve g iri cs s ≠ [] := by
  induction cs generalizing s with
  | nil => exact List.cons_ne_nil s []
  | cons c cs ih =>
      obtain ⟨v, hv⟩ := List.exists_mem_of_ne_nil _ (extended_ne_nil (h c List.mem_cons_self) s)
      obtain ⟨u, hu⟩ := List.exists_mem_of_ne_nil _
        (ih (fun d hd => h d (List.mem_cons_of_mem c hd)) v)
      exact List.ne_nil_of_mem (List.mem_flatMap.mpr ⟨v, hv, hu⟩)

/-- Every object of a clause is bound in some solution, whatever the other clauses have. -/
theorem exists_mem_solve (hnames : (cs.map name).Nodup) (hready : Ready anchor iri cs s)
    (h : ∀ c ∈ cs, c.isOptional = false → c.objects g iri ≠ []) (hc : c ∈ cs) {o : Term}
    (ho : o ∈ c.objects g iri) : ∃ u ∈ solve g iri cs s, u.term? c.name = some o := by
  induction cs generalizing s with
  | nil => contradiction
  | cons first cs ih =>
      have hrest : ∀ d ∈ cs, d.isOptional = false → d.objects g iri ≠ [] := fun d hd =>
        h d (List.mem_cons_of_mem first hd)
      rw [List.map_cons, List.nodup_cons] at hnames
      rcases List.mem_cons.mp hc with heq | hc
      · subst heq
        have hv : s ++ [(c.name, o)] ∈ c.extended g iri s :=
          matched_subset_extended (List.mem_map.mpr ⟨o, ho, rfl⟩)
        obtain ⟨u, hu⟩ := List.exists_mem_of_ne_nil _ (solve_ne_nil hrest (s ++ [(c.name, o)]))
        refine ⟨u, List.mem_flatMap.mpr ⟨_, hv, hu⟩, ?_⟩
        rw [term?_solve hnames.1 hu, term?_bound, hready.free c List.mem_cons_self, if_pos rfl]
        rfl
      · obtain ⟨v, hv⟩ := List.exists_mem_of_ne_nil _
          (extended_ne_nil (h first List.mem_cons_self) s)
        obtain ⟨u, hu, hterm⟩ :=
          ih hnames.2 (hready.extended (List.nodup_cons.mpr hnames) hv) hrest hc
        exact ⟨u, List.mem_flatMap.mpr ⟨v, hv, hu⟩, hterm⟩

/-- What solutions bind to the variable of a clause is what the graph has for it. -/
theorem mem_found_iff (hnames : (cs.map name).Nodup) (hready : Ready anchor iri cs s)
    (h : ∀ c ∈ cs, c.isOptional = false → c.objects g iri ≠ []) (hc : c ∈ cs) {o : Term} :
    o ∈ (solve g iri cs s).filterMap (·.term? c.name) ↔ o ∈ c.objects g iri := by
  rw [List.mem_filterMap]
  constructor
  · rintro ⟨u, hu, hterm⟩
    exact mem_objects_of_mem_solve hnames hready hu hc hterm
  · exact exists_mem_solve hnames hready h hc

/-! ### Blocks of triples -/

theorem filterMap_matchTriple (hanchored : s.term? anchor = some (.iri iri))
    (hfree : s.term? c.name = none) :
    (g.filterMap fun t => (c.triple anchor).matchTriple t s) = c.matched g iri s := by
  have hmatch : ∀ t : Triple, (c.triple anchor).matchTriple t s =
      if t.subject.same (.iri iri) && t.predicate.same (.iri c.predicate) then
        some (s ++ [(c.name, t.object)]) else none := by
    intro t
    have hsubject : matchTerm (.var anchor) t.subject s =
        if (Term.iri iri).same t.subject then some s else none := by
      simp only [matchTerm, unknownName?, hanchored]
    have hpredicate : matchTerm (.iri c.predicate) t.predicate s =
        if (Term.iri c.predicate).same t.predicate then some s else none :=
      (Ground.iri c.predicate).matchTerm t.predicate s
    simp only [TriplePattern.matchTriple, Clause.triple, TriplePattern.plain, hsubject,
      Option.bind_eq_bind]
    rw [Term.same_comm t.subject, Term.same_comm t.predicate]
    by_cases hs : (Term.iri iri).same t.subject
    · by_cases hp : (Term.iri c.predicate).same t.predicate
      · simp [hs, hp, hpredicate, matchTerm_fresh hfree]
      · simp [hs, hp, hpredicate]
    · simp [hs]
  have hobjects : c.objects g iri = (g.filter fun t =>
      t.subject.same (.iri iri) && t.predicate.same (.iri c.predicate)).map Triple.object := by
    simp [Clause.objects, Graph.objects, Graph.matching]
  rw [Clause.matched, hobjects, List.map_map, ← List.filterMap_eq_map, List.filterMap_filter]
  exact List.filterMap_congr fun t _ => hmatch t

/-- A block of clauses is answered clause by clause. -/
theorem solveBlock_triples (hrequired : ∀ c ∈ cs, c.isOptional = false)
    (hnames : (cs.map name).Nodup) (h : Ready anchor iri cs s) :
    solveBlock g (cs.map (triple anchor)) s = solve g iri cs s := by
  induction cs generalizing s with
  | nil => rfl
  | cons c cs ih =>
      have hfirst : c.extended g iri s = c.matched g iri s := by
        rw [Clause.extended, hrequired c List.mem_cons_self]
        rfl
      rw [List.map_cons, solveBlock, solve, hfirst,
        filterMap_matchTriple h.anchored (h.free c List.mem_cons_self)]
      refine List.flatMap_congr fun v hv => ?_
      exact ih (fun d hd => hrequired d (List.mem_cons_of_mem c hd)) (List.nodup_cons.mp hnames).2
        (h.extended hnames (hfirst ▸ hv))

/-! ### The parts of a star -/

/-- The blocks and optional parts that clauses make. -/
inductive Grouped (anchor : String) : List Clause → List GroupPart → Prop where
  | nil : Grouped anchor [] []
  | block {block rest : List Clause} {parts : List GroupPart} (hne : block ≠ [])
      (hrequired : ∀ c ∈ block, c.isOptional = false) (hrest : Grouped anchor rest parts) :
      Grouped anchor (block ++ rest) (.triples (block.map (triple anchor)) :: parts)
  | optional {c : Clause} {rest : List Clause} {parts : List GroupPart}
      (hoptional : c.isOptional = true) (hrest : Grouped anchor rest parts) :
      Grouped anchor (c :: rest) (.optional (.ofAlgebra (.bgp [c.triple anchor])) :: parts)

theorem grouped_mergeBlocks (anchor : String) (cs : List Clause) :
    Grouped anchor cs (GroupPart.mergeBlocks (cs.map (part anchor))) := by
  induction cs with
  | nil => exact .nil
  | cons c cs ih =>
      cases hoptional : c.isOptional with
      | true =>
          rw [List.map_cons, part, if_pos hoptional]
          exact .optional hoptional ih
      | false =>
          have hone : ∀ d ∈ [c], d.isOptional = false := fun d hd =>
            List.mem_singleton.mp hd ▸ hoptional
          rw [List.map_cons, part, hoptional, if_neg Bool.false_ne_true, GroupPart.mergeBlocks]
          generalize GroupPart.mergeBlocks (cs.map (part anchor)) = parts at ih
          cases ih with
          | nil => exact .block (List.cons_ne_nil c []) hone .nil
          | optional hother hrest =>
              exact .block (List.cons_ne_nil c []) hone (.optional hother hrest)
          | @block block rest parts hne hrequired hrest =>
              refine .block (List.cons_ne_nil c block) (fun d hd => ?_) hrest
              rcases List.mem_cons.mp hd with rfl | hd
              · exact hoptional
              · exact hrequired d hd

/-- A pattern that is answered with solutions to which the clauses come new, and in which the anchor
is known unless it is the pattern without triples. -/
structure Leads (g : Graph) (anchor iri : String) (cs : List Clause) (p : Algebra) : Prop where
  handed : p.takesBindings = true
  known : p = .empty ∨ anchor ∈ p.mentioned
  ready : ∀ s ∈ p.answers g (Algebra.point anchor iri), Ready anchor iri cs s

theorem leads_empty (hnames : (anchor :: cs.map name).Nodup) :
    Leads g anchor iri cs Algebra.empty where
  handed := rfl
  known := Or.inl rfl
  ready _ hs := List.mem_singleton.mp hs ▸ ready_point hnames

theorem mem_mentioned_triple (anchor : String) (c : Clause) :
    anchor ∈ (c.triple anchor).variableNames := by
  simp [triple, TriplePattern.plain, TriplePattern.variableNames, TriplePattern.terms]

variable {p : Algebra}

/-- A block of clauses behind a pattern. -/
theorem answers_block {rest : List Clause} (h : Leads g anchor iri (cs ++ rest) p) (hne : cs ≠ [])
    (hrequired : ∀ c ∈ cs, c.isOptional = false) (hnames : ((cs ++ rest).map name).Nodup) :
    (GroupPart.extend p (.triples (cs.map (triple anchor)))).answers g (Algebra.point anchor iri) =
        (p.answers g (Algebra.point anchor iri)).flatMap (solve g iri cs) ∧
      Leads g anchor iri rest (GroupPart.extend p (.triples (cs.map (triple anchor)))) := by
  have hown : (cs.map name).Nodup := by
    rw [List.map_append] at hnames
    exact (List.nodup_append.mp hnames).1
  have hready : ∀ s ∈ p.answers g (Algebra.point anchor iri), Ready anchor iri cs s := fun s hs =>
    (h.ready s hs).take
  have hblock : ∀ s ∈ p.answers g (Algebra.point anchor iri),
      (Algebra.bgp (cs.map (triple anchor))).answers g s = solve g iri cs s := fun s hs =>
    solveBlock_triples hrequired hown (hready s hs)
  have hanswers : (GroupPart.extend p (.triples (cs.map (triple anchor)))).answers g
      (Algebra.point anchor iri) =
        (p.answers g (Algebra.point anchor iri)).flatMap (solve g iri cs) := by
    refine Eq.trans (Algebra.answers_joined h.handed rfl fun s hs u hu => ?_)
      (List.flatMap_congr hblock)
    exact longer_solve hown (hready s hs) (hblock s hs ▸ hu)
  refine ⟨hanswers, Algebra.takesBindings_joined h.handed rfl,
    Or.inr (Algebra.mem_mentioned_joined ?_), ?_⟩
  · obtain ⟨c, hc⟩ := List.exists_mem_of_ne_nil cs hne
    exact List.mem_flatMap.mpr ⟨_, List.mem_map_of_mem hc, mem_mentioned_triple anchor c⟩
  · intro u hu
    rw [hanswers] at hu
    obtain ⟨s, hs, hu⟩ := List.mem_flatMap.mp hu
    exact (h.ready s hs).solve hnames hu

/-- What a pattern alone says in one of its answers: nothing, or something of the anchor. -/
theorem Ready.own (h : Ready anchor iri (c :: cs) s)
    (hknown : p = .empty ∨ anchor ∈ p.mentioned) :
    let own := s.restrict p.mentioned
    let left := if own.isEmpty then Algebra.point anchor iri else own
    left.term? anchor = some (.iri iri) ∧ left.term? c.name = none := by
  intro own left
  have hfree := h.free c List.mem_cons_self
  have hne : c.name ≠ anchor := by
    intro heq
    rw [heq, h.anchored] at hfree
    contradiction
  by_cases hempty : own.isEmpty
  · simp only [left, if_pos hempty]
    rw [Algebra.term?_point, Algebra.term?_point, if_pos rfl, if_neg hne]
    exact ⟨rfl, rfl⟩
  · simp only [left, if_neg hempty]
    rcases hknown with rfl | hknown
    · exact absurd rfl hempty
    · rw [Solution.term?_restrict, Solution.term?_restrict, if_pos hknown, hfree, ite_self]
      exact ⟨h.anchored, rfl⟩

/-- An optional clause behind a pattern.  Where it has no object, it has none for what the pattern
says of the anchor either. -/
theorem answers_optional {rest : List Clause} (h : Leads g anchor iri (c :: rest) p)
    (hoptional : c.isOptional = true) (hnames : ((c :: rest).map name).Nodup) :
    (GroupPart.extend p (.optional (.ofAlgebra (.bgp [c.triple anchor])))).answers g
          (Algebra.point anchor iri) =
        (p.answers g (Algebra.point anchor iri)).flatMap (c.extended g iri) ∧
      Leads g anchor iri rest
        (GroupPart.extend p (.optional (.ofAlgebra (.bgp [c.triple anchor])))) := by
  have hmatched : ∀ s, s.term? anchor = some (.iri iri) → s.term? c.name = none →
      (Algebra.bgp [c.triple anchor]).answers g s = c.matched g iri s := by
    intro s hanchored hfree
    rw [Algebra.answers, solveBlock, filterMap_matchTriple hanchored hfree]
    exact List.flatMap_singleton' _
  have hanswers : (GroupPart.extend p (.optional (.ofAlgebra (.bgp [c.triple anchor])))).answers g
      (Algebra.point anchor iri) =
        (p.answers g (Algebra.point anchor iri)).flatMap (c.extended g iri) := by
    refine (Algebra.answers_leftJoin p (.bgp [c.triple anchor]) _).trans
      (List.flatMap_congr fun s hs => ?_)
    have hanchored := (h.ready s hs).anchored
    have hfree := (h.ready s hs).free c List.mem_cons_self
    have hmerged : (c.matched g iri s).map s.merge = c.matched g iri s := by
      refine (List.map_congr_left fun u hu => ?_).trans (List.map_id _)
      obtain ⟨o, -, rfl⟩ := List.mem_map.mp hu
      exact (longer_bound hfree o).merge_eq
    obtain ⟨hown, hownFree⟩ := (h.ready s hs).own h.known
    simp only [hmatched s hanchored hfree, hmerged, hmatched _ hown hownFree]
    cases hobjects : c.objects g iri with
    | nil => simp [Clause.extended, Clause.matched, hoptional, hobjects]
    | cons o objects => simp [Clause.extended, Clause.matched, hobjects]
  refine ⟨hanswers, ?_, Or.inr ?_, ?_⟩
  · exact Bool.and_eq_true_iff.mpr ⟨h.handed, rfl⟩
  · refine List.mem_append_left _ (List.mem_append_right _ ?_)
    exact List.mem_append_left _ (mem_mentioned_triple anchor c)
  · intro u hu
    rw [hanswers] at hu
    obtain ⟨s, hs, hu⟩ := List.mem_flatMap.mp hu
    exact (h.ready s hs).extended hnames hu

theorem answers_parts {parts : List GroupPart} (hparts : Grouped anchor cs parts)
    (hnames : (cs.map name).Nodup) (h : Leads g anchor iri cs p) :
    (parts.foldl GroupPart.extend p).answers g (Algebra.point anchor iri) =
        (p.answers g (Algebra.point anchor iri)).flatMap (solve g iri cs) ∧
      (parts.foldl GroupPart.extend p).takesBindings = true := by
  induction hparts generalizing p with
  | nil => exact ⟨by simp [solve], h.handed⟩
  | @block block rest parts hne hrequired hrest ih =>
      obtain ⟨hanswers, hleads⟩ := answers_block h hne hrequired hnames
      rw [List.map_append] at hnames
      obtain ⟨hfinal, htakes⟩ := ih (List.nodup_append.mp hnames).2.1 hleads
      refine ⟨?_, htakes⟩
      rw [List.foldl_cons, hfinal, hanswers, List.flatMap_assoc]
      exact List.flatMap_congr fun s _ => (solve_append block rest s).symm
  | @optional c rest parts hoptional hrest ih =>
      obtain ⟨hanswers, hleads⟩ := answers_optional h hoptional hnames
      obtain ⟨hfinal, htakes⟩ := ih (List.nodup_cons.mp hnames).2 hleads
      refine ⟨?_, htakes⟩
      rw [List.foldl_cons, hfinal, hanswers, List.flatMap_assoc]
      rfl

end Clause

/-! ### Stars -/

namespace Star

variable {b : Star} {g : Graph} {iri : String}

theorem body_eq (b : Star) :
    b.body = (GroupPart.mergeBlocks (b.clauses.map (Clause.part b.anchor))).foldl
      GroupPart.extend .empty := by
  have hparts : ∀ part ∈ b.clauses.map (Clause.part b.anchor), part.condition? = none := by
    intro part hpart
    obtain ⟨c, -, rfl⟩ := List.mem_map.mp hpart
    unfold Clause.part
    split <;> rfl
  have hothers : (b.clauses.map (Clause.part b.anchor)).filter (·.condition?.isNone) =
      b.clauses.map (Clause.part b.anchor) :=
    List.filter_eq_self.mpr fun part hpart => by rw [hparts part hpart]; rfl
  have hconditions : (b.clauses.map (Clause.part b.anchor)).filterMap GroupPart.condition? = [] :=
    List.filterMap_eq_nil_iff.mpr hparts
  rw [body, GroupPattern.ofParts, hothers, hconditions]
  rfl

/-- Handed an IRI for its anchor, a star is answered clause by clause. -/
theorem answers_body (b : Star) (g : Graph) (iri : String) :
    b.body.answers g (Algebra.point b.anchor iri) =
        Clause.solve g iri b.clauses (Algebra.point b.anchor iri) ∧
      b.body.takesBindings = true := by
  have hleads : Clause.Leads g b.anchor iri b.clauses Algebra.empty := Clause.leads_empty b.names
  obtain ⟨hanswers, htakes⟩ := Clause.answers_parts
    (Clause.grouped_mergeBlocks b.anchor b.clauses) (List.nodup_cons.mp b.names).2 hleads
  rw [body_eq]
  refine ⟨hanswers.trans ?_, htakes⟩
  exact List.flatMap_singleton _ _

/-- A star is answered with solutions about the IRI. -/
theorem anchored_of_mem_answers {s : Solution}
    (h : s ∈ b.body.answers g (Algebra.point b.anchor iri)) :
    s.term? b.anchor = some (.iri iri) := by
  rw [(b.answers_body g iri).1] at h
  obtain ⟨hanchor, hnames⟩ := List.nodup_cons.mp b.names
  rw [Clause.term?_solve hanchor h, Algebra.term?_point, if_pos rfl]

end Star

end EntityMapping.Sparql

namespace EntityMapping

open Sparql (Algebra Clause Solution Star)

/-- The terms that the rows of a selection about one IRI have, where a star is nested in it. -/
theorem MemoryStore.terms_rows_about (m : MemoryStore) (b : Star) (iri : String)
    {projected : List String} (hanchor : b.anchor ∈ projected) {name : String}
    (hname : name ∈ projected) :
    let p := Algebra.project b.body projected
    let outer := Algebra.distinctNames (p.pointed b.anchor iri).mentioned
    (m.rows (.project (p.pointed b.anchor iri) outer) outer).map (·.term? name) =
      (Clause.solve m.graph iri b.clauses (Algebra.point b.anchor iri)).map (·.term? name) := by
  intro p outer
  obtain ⟨hbody, htakes⟩ := b.answers_body m.graph iri
  have hinner : p.answers m.graph (Algebra.point b.anchor iri) =
      (Clause.solve m.graph iri b.clauses (Algebra.point b.anchor iri)).map
        (·.restrict projected) := by
    rw [Algebra.answers, hbody]
  have hpointed : (p.pointed b.anchor iri).answers m.graph Solution.empty =
      (p.answers m.graph (Algebra.point b.anchor iri)).map
        (Algebra.point b.anchor iri).merge := by
    have htakesAll : ((Algebra.values [b.anchor] [[some (.iri iri)]]).takesBindings &&
        (Algebra.subSelect p).takesBindings) = true := htakes
    rw [Algebra.pointed, Algebra.answers, if_pos htakesAll]
    exact List.flatMap_singleton _ _
  have hrows : m.rows (.project (p.pointed b.anchor iri) outer) outer =
      rowsOf outer ((p.answers m.graph (Algebra.point b.anchor iri)).map fun s =>
        ((Algebra.point b.anchor iri).merge s).restrict outer) := by
    rw [MemoryStore.rows, Algebra.answers, hpointed, List.map_map]
    rfl
  have habout : ∀ s ∈ p.answers m.graph (Algebra.point b.anchor iri),
      s.term? b.anchor = some (.iri iri) := by
    intro s hs
    obtain ⟨u, hu, rfl⟩ := List.mem_map.mp hs
    rw [Solution.term?_restrict, if_pos hanchor, Star.anchored_of_mem_answers hu]
  rw [hrows, terms_rowsOf_joined (mem_shown hanchor) (mem_shown hname) habout, hinner,
    List.map_map]
  refine List.map_congr_left fun s _ => ?_
  rw [Function.comp_apply, Solution.term?_restrict, if_pos hname]

end EntityMapping
