import EntityMapping.Proofs.Analysis.Links
import EntityMapping.Proofs.Analysis.Owner
import EntityMapping.Proofs.Sparql.Star

/-!
What the analysis finds in a star.

The variable of a clause is linked to the anchor by the predicate of the clause and by nothing else,
and it is nullable exactly if the clause is optional.  So an entity type of a star has one property
for each clause.
-/

namespace EntityMapping

open Sparql (Algebra Clause GroupPart Star TriplePattern)

/-! ### The triples of a star -/

namespace Pattern

variable {p q : Algebra} {anchor : String} {cs : List Clause} {parts : List GroupPart}

theorem triples_joined (p q : Algebra) :
    (ofAlgebra (Algebra.joined p q)).triples = (ofAlgebra p).triples ++ (ofAlgebra q).triples ∧
      (ofAlgebra (Algebra.joined p q)).outsideOptional =
        (ofAlgebra p).outsideOptional ++ (ofAlgebra q).outsideOptional := by
  unfold Algebra.joined
  split
  · next hempty =>
      obtain rfl := Algebra.eq_empty_of_isEmpty hempty
      exact ⟨rfl, rfl⟩
  · split
    · next hempty =>
        obtain rfl := Algebra.eq_empty_of_isEmpty hempty
        exact ⟨(List.append_nil _).symm, (List.append_nil _).symm⟩
    · refine ⟨?_, outsideOptional_pair _ _⟩
      simp only [ofAlgebra, triples, triplesOfAll, List.append_nil]

/-- The triples of a pattern with clauses behind it are those of both, and an optional clause has
none outside the optional parts. -/
theorem triples_parts (h : Clause.Grouped anchor cs parts) (p : Algebra) :
    (ofAlgebra (parts.foldl GroupPart.extend p)).triples =
        (ofAlgebra p).triples ++ cs.map (Clause.triple anchor) ∧
      (ofAlgebra (parts.foldl GroupPart.extend p)).outsideOptional =
        (ofAlgebra p).outsideOptional ++
          (cs.filter fun c => !c.isOptional).map (Clause.triple anchor) := by
  induction h generalizing p with
  | nil => exact ⟨(List.append_nil _).symm, (List.append_nil _).symm⟩
  | @block block rest parts hne hrequired hrest ih =>
      obtain ⟨htriples, houtside⟩ := ih (GroupPart.extend p (.triples (block.map _)))
      obtain ⟨hjoined, hjoinedOutside⟩ := triples_joined p (.bgp (block.map (Clause.triple anchor)))
      have hblock : block.filter (fun c => !c.isOptional) = block :=
        List.filter_eq_self.mpr fun c hc => by rw [hrequired c hc]; rfl
      constructor
      · rw [List.foldl_cons, htriples, GroupPart.extend, hjoined, List.map_append,
          List.append_assoc]
        rfl
      · rw [List.foldl_cons, houtside, GroupPart.extend, hjoinedOutside, List.filter_append, hblock,
          List.map_append, List.append_assoc]
        rfl
  | @optional c rest parts hoptional hrest ih =>
      obtain ⟨htriples, houtside⟩ :=
        ih (GroupPart.extend p (.optional (.ofAlgebra (.bgp [c.triple anchor]))))
      constructor
      · rw [List.foldl_cons, htriples]
        simp [GroupPart.extend, Sparql.GroupPattern.ofAlgebra, ofAlgebra, triples, triplesOfAll]
      · rw [List.foldl_cons, houtside]
        simp [GroupPart.extend, Sparql.GroupPattern.ofAlgebra, ofAlgebra, outsideOptional,
          outsideOptionalOfAll, hoptional]

end Pattern

/-- The pattern of a selection of a star. -/
theorem Pattern.triples_star (b : Star) (projected : List String) :
    (ofAlgebra (.project b.body projected)).triples = b.clauses.map (Clause.triple b.anchor) ∧
      (ofAlgebra (.project b.body projected)).outsideOptional =
        (b.clauses.filter fun c => !c.isOptional).map (Clause.triple b.anchor) := by
  have hparts := triples_parts (Clause.grouped_mergeBlocks b.anchor b.clauses) .empty
  rwa [← b.body_eq] at hparts

/-! ### The variables of a star -/

/-- The predicates that lead from the anchor of a star to the variable of a clause. -/
theorem Analysis.mem_directPredicates_star {b : Star} {projected : List String}
    {visits : List Visit} (hwalk : Visit.all (.ofAlgebra (.project b.body projected)) = .ok visits)
    {c : Clause} (hc : c ∈ b.clauses) (predicate : String) :
    predicate ∈ directPredicates (Visit.dependencies visits) b.anchor c.name ↔
      predicate = c.predicate := by
  rw [mem_directPredicates]
  constructor
  · rintro ⟨optional, hlink⟩
    have htriple := (Dependency.pattern_mem hwalk hlink).1
    rw [(Pattern.triples_star b projected).1] at htriple
    obtain ⟨d, hd, heq⟩ := List.mem_map.mp htriple
    simp only [Clause.triple, Dependency.pattern, TriplePattern.plain, TriplePattern.mk.injEq,
      Sparql.Path.step.injEq, Term.iri.injEq, Term.var.injEq] at heq
    obtain ⟨-, rfl, hname⟩ := heq
    rw [List.inj_on_of_nodup_map (List.nodup_cons.mp b.names).2 hd hc hname]
  · rintro rfl
    obtain ⟨next, hofPattern⟩ := Visit.all_ok hwalk
    have hmem : c.triple b.anchor ∈ visits.map Visit.pattern := by
      rw [Visit.map_pattern_ofPattern hofPattern, (Pattern.triples_star b projected).1]
      exact List.mem_map_of_mem hc
    obtain ⟨⟨context, subject, p, object⟩, hv, heq⟩ := List.mem_map.mp hmem
    simp only [Clause.triple, Visit.pattern, TriplePattern.plain, TriplePattern.mk.injEq,
      Sparql.Path.step.injEq, Term.iri.injEq] at heq
    obtain ⟨rfl, rfl, rfl⟩ := heq
    exact ⟨!context.isEmpty, List.mem_eraseDups.mpr (List.mem_filterMap.mpr ⟨_, hv, rfl⟩)⟩

/-- The variable of a clause has the predicate of the clause, and it may be unbound only if the
clause is optional. -/
theorem Analysis.propertiesOf_star {b : Star} {projected : List String} {visits : List Visit}
    (hwalk : Visit.all (.ofAlgebra (.project b.body projected)) = .ok visits) {hints : SchemaHints}
    {c : Clause} (hc : c ∈ b.clauses) {v : VariableProperties}
    (hv : propertiesOf hints visits b.anchor c.name = .ok v) :
    v.predicate = some c.predicate ∧ (c.isOptional = false → v.nullable = false) := by
  obtain ⟨hnullable, -, howner⟩ := propertiesOf_ok hv
  have hdirect := mem_directPredicates_star hwalk hc
  constructor
  · generalize directPredicates (Visit.dependencies visits) b.anchor c.name = found at *
    match found, howner with
    | [], _ => exact absurd ((hdirect c.predicate).mpr rfl) List.not_mem_nil
    | [p], howner =>
        rw [← Except.ok.inj howner, (hdirect p).mp List.mem_cons_self]
    | _ :: _ :: _, howner => contradiction
  · intro hrequired
    rw [hnullable, isNullable_eq_false hwalk, Pattern.Requires, (Pattern.triples_star b projected).2]
    refine ⟨c.triple b.anchor, List.mem_map_of_mem ?_, Or.inr rfl⟩
    exact List.mem_filter.mpr ⟨hc, by rw [hrequired]; rfl⟩

namespace EntityType

/-- A type with one property for each clause of a star. -/
structure Follows (t : EntityType) (b : Star) : Prop where
  regular : t.Regular
  anchor : t.anchor = b.anchor
  clause : ∀ p ∈ t.properties, ∃ c ∈ b.clauses, p.name = c.name ∧
    p.predicate = some c.predicate ∧ (c.isOptional = false → p.multiplicity ≠ .optional)
  property : ∀ c ∈ b.clauses, ∃ p ∈ t.properties, p.name = c.name

/-- A type that was made of a selection of a star and shows all its variables, with nothing said
about them instead of what the analysis finds. -/
structure OfStar (t : EntityType) (b : Star) : Prop where
  made : ∃ name anchor namespaceIri hints,
    ofQuery name t.query anchor namespaceIri hints [] = .ok t
  anchor : t.anchor = b.anchor
  pattern : t.query.pattern = .ofAlgebra (.project b.body t.query.projected)
  projected : ∀ n, n ∈ t.query.projected ↔ n = b.anchor ∨ n ∈ b.clauses.map Clause.name

theorem OfStar.follows {t : EntityType} {b : Star} (hstar : t.OfStar b) : t.Follows b := by
  obtain ⟨⟨name, anchor, namespaceIri, hints, h⟩, hanchor, hpattern, hprojected⟩ := hstar
  generalize t.query = q at h hpattern hprojected
  have hregular := regular_of_ofQuery h
  obtain ⟨chosen, -, h⟩ := bind_eq_ok.mp h
  obtain ⟨analysis, hanalysis, h⟩ := bind_eq_ok.mp h
  obtain ⟨-, -, h⟩ := bind_eq_ok.mp h
  obtain ⟨described, hdescribed, h⟩ := bind_eq_ok.mp h
  obtain rfl := Except.ok.inj hdescribed
  obtain ⟨synthesis, hsynthesis, h⟩ := bind_eq_ok.mp h
  obtain rfl := pure_eq_ok.mp h
  obtain rfl : chosen = b.anchor := hanchor
  obtain ⟨visits, hmade⟩ := Analysis.exists_madeOf hanalysis
  have hwalk := hmade.walk
  rw [hpattern] at hwalk
  -- what is described are the variables of the clauses
  have hnames : ∀ n, n ∈ analysis.described.map Prod.fst ↔ n ∈ b.clauses.map Clause.name := by
    intro n
    have hfresh := (List.nodup_cons.mp b.names).1
    rw [names_derive hanalysis, Analysis.targets, Algebra.mem_distinctNames, List.mem_filter,
      hprojected, bne_iff_ne]
    exact ⟨fun h => h.1.resolve_left h.2, fun h => ⟨Or.inr h, fun heq => hfresh (heq ▸ h)⟩⟩
  refine ⟨hregular, rfl, fun p hp => ?_, fun c hc => ?_⟩
  · obtain ⟨⟨n, v⟩, hv, rfl⟩ := List.mem_map.mp hp
    obtain ⟨c, hc, rfl⟩ := List.mem_map.mp ((hnames n).mp (List.mem_map_of_mem hv))
    obtain ⟨hpredicate, hrequired⟩ :=
      Analysis.propertiesOf_star hwalk hc (hmade.described c.name v hv).2
    refine ⟨c, hc, rfl, hpredicate, fun hmust => ?_⟩
    simp only [Property.ofVariable, hrequired hmust]
    cases v.functional <;> simp
  · obtain ⟨⟨n, v⟩, hv, heq⟩ :=
      List.mem_map.mp ((hnames c.name).mpr (List.mem_map_of_mem hc))
    exact ⟨_, List.mem_map_of_mem hv, heq⟩

end EntityType

end EntityMapping
