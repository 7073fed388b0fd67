import EntityMapping.Proofs.Entity.State

/-!
Types of entities that were made from a selection: each name has one property, and the templates
are made from the same variables as the properties.
-/

namespace EntityMapping

theorem bind_eq_ok {ε α β : Type} {x : Except ε α} {f : α → Except ε β} {b : β} :
    (x >>= f) = .ok b ↔ ∃ a, x = .ok a ∧ f a = .ok b := by
  cases x with
  | ok a => exact ⟨fun h => ⟨a, rfl, h⟩, fun ⟨_, ha, h⟩ => Except.ok.inj ha ▸ h⟩
  | error e => exact ⟨nofun, fun ⟨_, ha, _⟩ => nomatch ha⟩

theorem bind_eq_error {ε α β : Type} {x : Except ε α} {f : α → Except ε β} {e : ε} :
    (x >>= f) = .error e ↔ x = .error e ∨ ∃ a, x = .ok a ∧ f a = .error e := by
  cases x with
  | ok a =>
      constructor
      · exact fun h => Or.inr ⟨a, rfl, h⟩
      · rintro (h | ⟨_, ha, h⟩)
        · cases h
        · exact Except.ok.inj ha ▸ h
  | error cause =>
      constructor
      · exact fun h => Or.inl (congrArg Except.error (Except.error.inj h))
      · rintro (h | ⟨_, ha, -⟩)
        · exact congrArg Except.error (Except.error.inj h)
        · cases ha

theorem pure_eq_ok {ε α : Type} {a b : α} : (pure a : Except ε α) = .ok b ↔ a = b :=
  ⟨Except.ok.inj, congrArg Except.ok⟩

/-- Computations one after the other give what each of them gives. -/
theorem forall₂_of_mapM {ε α β : Type} {f : α → Except ε β} {l : List α} {made : List β}
    (h : l.mapM f = .ok made) : List.Forall₂ (fun a b => f a = .ok b) l made := by
  induction l generalizing made with
  | nil =>
      rw [List.mapM_nil, pure_eq_ok] at h
      exact h ▸ .nil
  | cons a l ih =>
      rw [List.mapM_cons] at h
      obtain ⟨b, hb, h⟩ := bind_eq_ok.mp h
      obtain ⟨more, hmore, h⟩ := bind_eq_ok.mp h
      exact pure_eq_ok.mp h ▸ .cons hb (ih hmore)

/-- What comes after a test that throws is reached where the test is negative. -/
theorem guard_eq_ok {ε α : Type} {test : Bool} {e : ε} {f : PUnit → Except ε α} {a : α} :
    (if test then (do let r ← throw e; f r) else f ⟨⟩) = .ok a ↔ test = false ∧ f ⟨⟩ = .ok a := by
  cases test with
  | false => simp
  | true => exact ⟨nofun, fun h => nomatch h.1⟩

theorem guard_eq_error {ε α : Type} {test : Bool} {cause e : ε} {f : PUnit → Except ε α} :
    (if test then (do let r ← throw cause; f r) else f ⟨⟩) = .error e ↔
      (test = true ∧ cause = e) ∨ (test = false ∧ f ⟨⟩ = .error e) := by
  cases test with
  | false => simp
  | true =>
      constructor
      · exact fun h => Or.inl ⟨rfl, Except.error.inj h⟩
      · rintro (⟨-, rfl⟩ | ⟨h, -⟩)
        · rfl
        · cases h

namespace Sparql.Algebra

theorem distinctNames_from (names seen : List String) (hseen : seen.Nodup) :
    (names.foldl (fun seen name => if seen.contains name then seen else seen ++ [name])
        seen).Nodup ∧
      ∀ name, name ∈ names.foldl (fun seen name =>
        if seen.contains name then seen else seen ++ [name]) seen ↔ name ∈ seen ∨ name ∈ names := by
  induction names generalizing seen with
  | nil => exact ⟨hseen, by simp⟩
  | cons first names ih =>
      rw [List.foldl_cons]
      split
      · next hmem =>
          obtain ⟨hnodup, hiff⟩ := ih seen hseen
          refine ⟨hnodup, fun name => (hiff name).trans ?_⟩
          rw [List.contains_iff_mem] at hmem
          constructor
          · rintro (h | h)
            · exact Or.inl h
            · exact Or.inr (List.mem_cons_of_mem _ h)
          · rintro (h | h)
            · exact Or.inl h
            · rcases List.mem_cons.mp h with rfl | h
              · exact Or.inl hmem
              · exact Or.inr h
      · next hmem =>
          rw [List.contains_iff_mem] at hmem
          have hmore : (seen ++ [first]).Nodup := by
            rw [List.nodup_append]
            refine ⟨hseen, List.nodup_singleton _, ?_⟩
            rintro name hname other hother rfl
            exact hmem (List.mem_singleton.mp hother ▸ hname)
          obtain ⟨hnodup, hiff⟩ := ih (seen ++ [first]) hmore
          refine ⟨hnodup, fun name => (hiff name).trans ?_⟩
          simp only [List.mem_append, List.mem_cons, List.not_mem_nil, or_false, or_assoc]

theorem nodup_distinctNames (names : List String) : (distinctNames names).Nodup :=
  (distinctNames_from names [] List.nodup_nil).1

theorem mem_distinctNames {names : List String} {name : String} :
    name ∈ distinctNames names ↔ name ∈ names := by
  have hiff := (distinctNames_from names [] List.nodup_nil).2 name
  simpa [distinctNames] using hiff

end Sparql.Algebra

/-! ### Types of selections -/

namespace EntityType

/-- A type whose properties and templates are made from the same variables, each named once and
none of them the anchor. -/
structure Regular (t : EntityType) : Prop where
  anchor : t.synthesis.anchor = t.anchor
  properties : t.properties = t.synthesis.described.map fun (name, p) => Property.ofVariable name p
  nodup : (t.synthesis.described.map Prod.fst).Nodup
  fresh : t.anchor ∉ t.synthesis.described.map Prod.fst

theorem names_applyAll {overrides : List (String × Override)}
    {described after : List (String × VariableProperties)}
    (h : Override.applyAll described overrides = .ok after) :
    after.map Prod.fst = described.map Prod.fst := by
  induction overrides generalizing described with
  | nil => rw [Except.ok.inj h]
  | cons entry overrides ih =>
      obtain ⟨name, o⟩ := entry
      simp only [Override.applyAll] at h
      split at h
      · rw [ih h, List.map_map]
        apply List.map_congr_left
        intro entry _
        by_cases hn : entry.1 = name <;> simp [hn]
      · contradiction

theorem names_mapM {names : List String} {f : String → Except MappingError VariableProperties}
    {described : List (String × VariableProperties)}
    (h : names.mapM (fun name => do return (name, ← f name)) = .ok described) :
    described.map Prod.fst = names := by
  replace h := forall₂_of_mapM h
  induction h with
  | nil => rfl
  | cons hentry _ ih =>
      obtain ⟨p, -, hp⟩ := bind_eq_ok.mp hentry
      rw [List.map_cons, ih, ← pure_eq_ok.mp hp]

theorem names_derive {q : SelectQuery} {anchor : String} {hints : SchemaHints} {a : Analysis}
    (h : Analysis.derive q anchor hints = .ok a) :
    a.described.map Prod.fst = Analysis.targets q anchor := by
  unfold Analysis.derive at h
  by_cases hanchor : (!q.projected.contains anchor) = true
  · rw [if_pos hanchor] at h
    contradiction
  rw [if_neg hanchor] at h
  obtain ⟨visits, -, h⟩ := bind_eq_ok.mp h
  obtain ⟨described, hdescribed, h⟩ := bind_eq_ok.mp h
  rw [← pure_eq_ok.mp h]
  exact names_mapM hdescribed

section Making

variable {name : String} {q : SelectQuery} {anchor : Option String} {namespaceIri : String}
  {hints : SchemaHints} {overrides : List (String × Override)} {t : EntityType}

/-- What a type is made of: the variables that the analysis described, as far as nothing overrides
that. -/
theorem ofQuery_ok (h : ofQuery name q anchor namespaceIri hints overrides = .ok t) :
    ∃ chosen analysis described, Analysis.derive q chosen hints = .ok analysis ∧
      described.map Prod.fst = Analysis.targets q chosen ∧
      t = ⟨name, q, chosen, namespaceIri, described.map fun (n, v) => Property.ofVariable n v,
        ⟨chosen, described⟩⟩ := by
  obtain ⟨chosen, -, h⟩ := bind_eq_ok.mp h
  obtain ⟨analysis, hanalysis, h⟩ := bind_eq_ok.mp h
  obtain ⟨-, -, h⟩ := bind_eq_ok.mp h
  obtain ⟨described, hdescribed, h⟩ := bind_eq_ok.mp h
  obtain ⟨synthesis, hsynthesis, h⟩ := bind_eq_ok.mp h
  have hmade : synthesis = ⟨chosen, described⟩ := by
    unfold Synthesis.ofVariables at hsynthesis
    simp only at hsynthesis
    split at hsynthesis
    · exact (Except.ok.inj hsynthesis).symm
    · contradiction
  subst hmade
  exact ⟨chosen, analysis, described, hanalysis,
    (names_applyAll hdescribed).trans (names_derive hanalysis), (pure_eq_ok.mp h).symm⟩

/-- Types are made that way. -/
theorem regular_of_ofQuery (h : ofQuery name q anchor namespaceIri hints overrides = .ok t) :
    t.Regular := by
  obtain ⟨chosen, analysis, described, -, hnames, rfl⟩ := ofQuery_ok h
  refine ⟨rfl, rfl, hnames ▸ Sparql.Algebra.nodup_distinctNames _, ?_⟩
  rw [hnames, Analysis.targets, Sparql.Algebra.mem_distinctNames]
  simp

end Making

theorem property_ok {t : EntityType} {name : String} {p : Property}
    (h : t.property name = .ok p) : p ∈ t.properties ∧ p.name = name := by
  unfold property at h
  split at h
  · next found hfound =>
      obtain rfl := Except.ok.inj h
      exact ⟨List.mem_of_find?_eq_some hfound, by simpa using List.find?_some hfound⟩
  · contradiction

theorem lookup_of_mem {α : Type} {entries : List (String × α)}
    (hnames : (entries.map Prod.fst).Nodup) {name : String} {a : α} (h : (name, a) ∈ entries) :
    entries.lookup name = some a := by
  induction entries with
  | nil => simp at h
  | cons entry entries ih =>
      obtain ⟨n, b⟩ := entry
      rw [List.map_cons, List.nodup_cons] at hnames
      rcases List.mem_cons.mp h with heq | hmem
      · obtain ⟨rfl, rfl⟩ := Prod.mk.inj heq
        simp
      · have hne : name ≠ n := by
          rintro rfl
          exact hnames.1 (List.mem_map.mpr ⟨_, hmem, rfl⟩)
        rw [List.lookup_cons, beq_false_of_ne hne]
        exact ih hnames.2 hmem

/-- The properties that a creation has to give values to. -/
def mandatoryProperties (t : EntityType) : List Property :=
  t.properties.filter fun p => p.multiplicity == .one && p.isWritable

namespace Regular

variable {t : EntityType}

theorem names_eq (h : t.Regular) :
    t.properties.map Property.name = t.synthesis.described.map Prod.fst := by
  rw [h.properties, List.map_map]
  rfl

theorem names_nodup (h : t.Regular) : (t.properties.map Property.name).Nodup :=
  h.names_eq ▸ h.nodup

theorem anchor_ne (h : t.Regular) {p : Property} (hp : p ∈ t.properties) : p.name ≠ t.anchor := by
  intro heq
  refine h.fresh (h.names_eq ▸ ?_)
  exact heq ▸ List.mem_map_of_mem hp

theorem property_eq (h : t.Regular) {p : Property} (hp : p ∈ t.properties) :
    t.property p.name = .ok p := by
  unfold property
  cases hfound : t.properties.find? (·.name == p.name) with
  | none =>
      have hnone := List.find?_eq_none.mp hfound p hp
      simp at hnone
  | some other =>
      have hname : other.name = p.name := by simpa using List.find?_some hfound
      rw [List.inj_on_of_nodup_map h.names_nodup (List.mem_of_find?_eq_some hfound) hp hname]

theorem described (h : t.Regular) {p : Property} (hp : p ∈ t.properties) :
    ∃ v, t.synthesis.described.lookup p.name = some v ∧ p = Property.ofVariable p.name v := by
  rw [h.properties] at hp
  obtain ⟨⟨name, v⟩, hmem, rfl⟩ := List.mem_map.mp hp
  exact ⟨v, lookup_of_mem h.nodup hmem, rfl⟩

theorem isMandatory_ofVariable (name : String) (v : VariableProperties) :
    ((Property.ofVariable name v).multiplicity == .one && (Property.ofVariable name v).isWritable) =
      Synthesis.isMandatory v := by
  unfold Property.ofVariable Synthesis.isMandatory Property.isWritable
  cases v.functional <;> cases v.nullable <;> rfl

theorem mandatoryProperties_eq (h : t.Regular) :
    t.mandatoryProperties =
      (t.synthesis.described.filter fun (_, v) => Synthesis.isMandatory v).map
        fun (name, v) => Property.ofVariable name v := by
  rw [mandatoryProperties, h.properties, List.filter_map]
  refine congrArg (List.map _) (List.filter_congr fun entry _ => ?_)
  exact isMandatory_ofVariable entry.1 entry.2

theorem mandatory_eq (h : t.Regular) :
    t.synthesis.mandatory = t.mandatoryProperties.map Property.name := by
  rw [h.mandatoryProperties_eq, List.map_map, Synthesis.mandatory]
  rfl

theorem mandatoryTriples_eq (h : t.Regular) :
    t.synthesis.mandatoryTriples =
      t.mandatoryProperties.mapM fun p =>
        t.synthesis.tripleText p.name (p.predicate.getD "") := by
  rw [h.mandatoryProperties_eq, List.mapM_map]
  rfl

theorem initializer_eq (h : t.Regular) {p : Property} (hp : p ∈ t.properties)
    {predicate : String} (hpredicate : p.predicate = some predicate) :
    t.synthesis.initializer p.name = do
      return "INSERT DATA \x7b " ++ (← t.synthesis.tripleText p.name predicate) ++ " \x7d" := by
  obtain ⟨v, hlookup, hv⟩ := h.described hp
  have hown : v.predicate = some predicate := by
    rw [hv] at hpredicate
    exact hpredicate
  simp only [Synthesis.initializer, hlookup, hown]

end Regular

end EntityType

end EntityMapping
