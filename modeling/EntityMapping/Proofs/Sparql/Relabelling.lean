import EntityMapping.Proofs.Sparql.Projection

/-!
Patterns with other labels for their blank nodes.

How a group is put together does not look at labels, so parts with new labels make up the group with
new labels.
-/

namespace EntityMapping

/-- A term with a new label, if it is a blank node. -/
def Term.relabel (rename : String → String) : Term → Term
  | .blank label => .blank (rename label)
  | t => t

namespace Sparql

/-- A triple with new labels. -/
def TriplePattern.relabel (rename : String → String) (t : TriplePattern) : TriplePattern :=
  ⟨t.subject.relabel rename, t.predicate, t.object.relabel rename⟩

/-- A node and the triples that it brings along, with new labels. -/
def relabelNode (rename : String → String) (node : Term × List TriplePattern) :
    Term × List TriplePattern :=
  (node.1.relabel rename, node.2.map (·.relabel rename))

/-- A pattern with new labels.  Only triples have blank nodes. -/
def Algebra.relabel (rename : String → String) : Algebra → Algebra
  | .bgp triples => .bgp (triples.map (·.relabel rename))
  | .join l r => .join (l.relabel rename) (r.relabel rename)
  | .leftJoin l r condition => .leftJoin (l.relabel rename) (r.relabel rename) condition
  | .filter condition p => .filter condition (p.relabel rename)
  | .extend p value name => .extend (p.relabel rename) value name
  | .union l r => .union (l.relabel rename) (r.relabel rename)
  | .minus l r => .minus (l.relabel rename) (r.relabel rename)
  | .graph name p => .graph name (p.relabel rename)
  | .service name p => .service name (p.relabel rename)
  | .values names rows => .values names rows
  | .subSelect p => .subSelect (p.relabel rename)
  | .aggregateJoin p => .aggregateJoin (p.relabel rename)
  | .orderBy p keys => .orderBy (p.relabel rename) keys
  | .project p names => .project (p.relabel rename) names
  | .distinct p => .distinct (p.relabel rename)
  | .reduced p => .reduced (p.relabel rename)
  | .slice p start length => .slice (p.relabel rename) start length

/-- A group with new labels. -/
def GroupPattern.relabel (rename : String → String) (g : GroupPattern) : GroupPattern :=
  ⟨g.condition, g.body.relabel rename⟩

/-- A part of a group with new labels. -/
def GroupPart.relabel (rename : String → String) : GroupPart → GroupPart
  | .triples ts => .triples (ts.map (·.relabel rename))
  | .condition e => .condition e
  | .optional g => .optional (g.relabel rename)
  | .minus g => .minus (g.relabel rename)
  | .joined p => .joined (p.relabel rename)
  | .bind value name => .bind value name

variable {rename : String → String}

namespace Algebra

theorem mentioned_relabel (p : Algebra) : (p.relabel rename).mentioned = p.mentioned := by
  have htriple : ∀ t : TriplePattern, (t.relabel rename).variableNames = t.variableNames := by
    rintro ⟨subject, predicate, object⟩
    cases predicate <;> cases subject <;> cases object <;> rfl
  induction p with
  | bgp triples => simp [relabel, mentioned, List.flatMap_map, htriple]
  | values names rows => rfl
  | project p names ih => rfl
  | _ => simp_all [relabel, mentioned]

theorem joined_relabel (l r : Algebra) :
    (l.relabel rename).joined (r.relabel rename) = (l.joined r).relabel rename := by
  have hempty : ∀ p : Algebra, (p.relabel rename).isEmpty = p.isEmpty := by
    intro p
    rcases p with (_ | ⟨t, ts⟩) | _ <;> rfl
  simp only [joined, hempty]
  split
  · rfl
  · split <;> rfl

theorem filtered_relabel (condition : Option Expr) (p : Algebra) :
    filtered condition (p.relabel rename) = (filtered condition p).relabel rename := by
  cases condition <;> rfl

/-- Steps that commute with new labels may be repeated. -/
theorem foldl_relabel {α : Type} {step step' : Algebra → α → Algebra}
    (hstep : ∀ p part, step' (p.relabel rename) part = (step p part).relabel rename)
    (parts : List α) (p : Algebra) :
    parts.foldl step' (p.relabel rename) = (parts.foldl step p).relabel rename := by
  induction parts generalizing p with
  | nil => rfl
  | cons part parts ih => rw [List.foldl_cons, hstep, ih, List.foldl_cons]

end Algebra

theorem GroupPattern.algebra_relabel (g : GroupPattern) :
    (g.relabel rename).algebra = g.algebra.relabel rename :=
  Algebra.filtered_relabel g.condition g.body

namespace GroupPart

theorem condition?_relabel (part : GroupPart) :
    (part.relabel rename).condition? = part.condition? := by
  cases part <;> rfl

theorem mergeBlocks_relabel (parts : List GroupPart) :
    mergeBlocks (parts.map (·.relabel rename)) = (mergeBlocks parts).map (·.relabel rename) := by
  fun_induction mergeBlocks parts with
  | case1 => rfl
  | case2 ts rest us more hmerged ih =>
      rw [hmerged, List.map_cons] at ih
      rw [List.map_cons, relabel, mergeBlocks, ih]
      simp [relabel]
  | case3 ts rest hblock ih =>
      rw [List.map_cons, relabel, mergeBlocks, ih, List.map_cons, relabel]
      rcases hmerged : mergeBlocks rest with - | ⟨part, more⟩
      · rfl
      · cases part with
        | triples us => exact absurd hmerged (hblock us more)
        | _ => rfl
  | case4 first rest hfirst ih =>
      cases first with
      | triples ts => exact absurd rfl (hfirst ts)
      | _ => exact congrArg (List.cons _) ih

theorem extend_relabel (p : Algebra) (part : GroupPart) :
    extend (p.relabel rename) (part.relabel rename) = (extend p part).relabel rename := by
  cases part with
  | triples ts => exact Algebra.joined_relabel p (.bgp ts)
  | condition e => rfl
  | optional g => rfl
  | minus g => exact congrArg (Algebra.minus _) g.algebra_relabel
  | joined q => exact Algebra.joined_relabel p q
  | bind value name => rfl

end GroupPart

theorem GroupPattern.ofParts_relabel (parts : List GroupPart) :
    ofParts (parts.map (·.relabel rename)) = (ofParts parts).relabel rename := by
  have hothers : (parts.map (·.relabel rename)).filter (fun part => part.condition?.isNone) =
      (parts.filter fun part => part.condition?.isNone).map (·.relabel rename) := by
    simp only [List.filter_map, Function.comp_def, GroupPart.condition?_relabel]
  have hconditions : (parts.map (·.relabel rename)).filterMap GroupPart.condition? =
      parts.filterMap GroupPart.condition? := by
    simp only [List.filterMap_map, Function.comp_def, GroupPart.condition?_relabel]
  simp only [ofParts, relabel, hothers, hconditions, GroupPart.mergeBlocks_relabel,
    List.foldl_map]
  exact congrArg _ (Algebra.foldl_relabel GroupPart.extend_relabel _ Algebra.empty)

namespace Query

theorem grouped_relabel (m : Modifiers) (p : Algebra) :
    grouped m (p.relabel rename) = (grouped m p).relabel rename := by
  refine Algebra.foldl_relabel (fun p key => ?_) m.groupKeys p
  rcases key with ⟨value, _ | name⟩ <;> rfl

end Query
/-- A selection from a pattern with new labels. -/
theorem Query.selection_relabel (repetition : Option Repetition) (columns : Option (List Column))
    (body : Algebra) (m : Modifiers) (values : Option Algebra) :
    selection repetition columns (body.relabel rename)
        { m with values := values.map (·.relabel rename) } =
      ((selection repetition columns body { m with values := values }).1.relabel rename,
        (selection repetition columns body { m with values := values }).2) := by
  have hnames : projectedNames columns (body.relabel rename) = projectedNames columns body := by
    cases columns with
    | none => rw [projectedNames, projectedNames, Algebra.mentioned_relabel]
    | some columns => rfl
  unfold selection
  rw [hnames]
  extract_lets names aggregated' conditioned' joined' extended' ordered' projected' repeated' sliced'
    aggregated conditioned joined extended ordered projected repeated sliced
  have haggregated : aggregated' = aggregated.relabel rename := by
    change (if aggregates columns m then Algebra.aggregateJoin (grouped m (body.relabel rename))
      else body.relabel rename) = Algebra.relabel rename (if aggregates columns m then _ else body)
    split
    · exact congrArg Algebra.aggregateJoin (grouped_relabel m body)
    · rfl
  have hconditioned : conditioned' = conditioned.relabel rename :=
    (congrArg _ haggregated).trans (Algebra.filtered_relabel _ aggregated)
  have hjoined : joined' = joined.relabel rename := by
    cases values with
    | none => exact hconditioned
    | some p =>
        have hcongr := congrArg (fun l => Algebra.joined l (p.relabel rename)) hconditioned
        exact hcongr.trans (Algebra.joined_relabel conditioned p)
  have hextended : extended' = extended.relabel rename := by
    refine (congrArg (List.foldl _ · _) hjoined).trans (Algebra.foldl_relabel (fun p column => ?_) _ _)
    cases column <;> rfl
  have hordered : ordered' = ordered.relabel rename := by
    change (if m.order.isEmpty then extended' else .orderBy extended' m.order) =
      Algebra.relabel rename (if m.order.isEmpty then extended else .orderBy extended m.order)
    rw [hextended]
    split <;> rfl
  have hprojected : projected' = projected.relabel rename :=
    congrArg (Algebra.project · names) hordered
  have hrepeated : repeated' = repeated.relabel rename := by
    rcases repetition with _ | _ | _
    · exact hprojected
    · exact congrArg Algebra.distinct hprojected
    · exact congrArg Algebra.reduced hprojected
  have hsliced : sliced' = sliced.relabel rename := by
    rcases m with ⟨keys, having, order, _ | limit, _ | offset, values⟩
    · exact hrepeated
    all_goals exact congrArg (Algebra.slice · _ _) hrepeated
  rw [hsliced]

namespace Grammar

theorem collectionLinks_relabel {label other : String}
    (h : ∀ index : Nat, rename (label ++ toString index) = other ++ toString index) (index : Nat)
    (items : List Term) :
    collectionLinks other index (items.map (·.relabel rename)) =
      relabelNode rename (collectionLinks label index items) := by
  induction items generalizing index with
  | nil => rfl
  | cons item items ih =>
      simp only [List.map_cons, collectionLinks, ih, ← h]
      rfl

end Grammar

end Sparql

end EntityMapping
