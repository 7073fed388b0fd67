import EntityMapping.Proofs.Analysis.Analyzable
import EntityMapping.Proofs.Entity.Rows
import EntityMapping.Proofs.Sparql.Nesting

/-!
What rows give the entities that they are about.

The rows of many entities may come in any order and repeat their terms.  Each IRI counts once, where
its first row stands; a property of many takes the set of what its rows bind, and a property of one
takes what comes first.  Which promises are broken is decided by how many different terms are bound.
-/

namespace EntityMapping

open Sparql (Algebra)

/-! ### What a property takes from rows -/

theorem Term.head?_insertInto (t : Term) (seen : List Term) :
    (t.insertInto seen).head? = seen.head?.or (some t) := by
  unfold insertInto
  cases seen with
  | nil => rfl
  | cons first rest => split <;> rfl

namespace Property

variable {p : Property} {rows others : List Row} {row : Row}

/-- Some row binds a term for a property. -/
def BoundIn (p : Property) (rows : List Row) (t : Term) : Prop :=
  ∃ row ∈ rows, row.term? p.name = some t

/-- What a property is to have by its rows: if it has one value, the first term that is bound, and
otherwise each of the bound terms once. -/
def TakesFrom (p : Property) (rows : List Row) (state : PropertyState) : Prop :=
  if p.isFunctional then state = .single (rows.findSome? (·.term? p.name))
  else ∃ ts, state = .several ts ∧ Term.Apart ts ∧
    ∀ o : Term, o.memberOf ts = true ↔ ∃ u, p.BoundIn rows u ∧ o.same u = true

theorem head?_valuesIn (p : Property) (rows : List Row) :
    (p.valuesIn rows).head? = rows.findSome? (·.term? p.name) := by
  suffices hfold : ∀ (ts seen : List Term),
      (ts.foldl (fun seen t => t.insertInto seen) seen).head? = seen.head?.or ts.head? by
    rw [valuesIn, hfold, List.head?_filterMap]
    rfl
  intro ts
  induction ts with
  | nil => simp
  | cons t ts ih =>
      intro seen
      rw [List.foldl_cons, ih, Term.head?_insertInto]
      cases seen.head? <;> rfl

theorem memberOf_valuesIn_iff (o : Term) :
    o.memberOf (p.valuesIn rows) = true ↔ ∃ u, p.BoundIn rows u ∧ o.same u = true := by
  rw [memberOf_valuesIn, Term.memberOf_iff]
  simp only [List.mem_filterMap, BoundIn]

theorem takesFrom_stateIn (p : Property) (rows : List Row) : p.TakesFrom rows (p.stateIn rows) := by
  unfold TakesFrom stateIn
  cases p.isFunctional with
  | true => exact congrArg PropertyState.single (head?_valuesIn p rows)
  | false => exact ⟨_, rfl, apart_valuesIn p rows, memberOf_valuesIn_iff⟩

/-- A property of many takes the same terms from rows in another order. -/
theorem TakesFrom.memberOf_perm {state state' : PropertyState} (h : p.TakesFrom rows state)
    (hother : p.TakesFrom others state') (hmany : p.isFunctional = false)
    (hperm : rows.Perm others) (o : Term) :
    o.memberOf state.terms = o.memberOf state'.terms := by
  rw [TakesFrom, hmany] at h hother
  obtain ⟨ts, rfl, -, hts⟩ := h
  obtain ⟨us, rfl, -, hus⟩ := hother
  have hbound : ∀ u, p.BoundIn rows u ↔ p.BoundIn others u := fun u => by
    simp only [BoundIn, hperm.mem_iff]
  rw [PropertyState.terms, PropertyState.terms, Bool.eq_iff_iff, hts, hus]
  simp only [hbound]

/-! ### Promises -/

/-- Rows bind different terms for a property. -/
def Disagree (p : Property) (rows : List Row) : Prop :=
  ∃ t u, p.BoundIn rows t ∧ p.BoundIn rows u ∧ t.same u = false

theorem disagree_iff : p.Disagree rows ↔ 1 < (p.valuesIn rows).length := by
  constructor
  · rintro ⟨t, u, ht, hu, hdiffer⟩
    by_contra hfew
    have hfound : ∀ {o}, p.BoundIn rows o → ∃ v ∈ p.valuesIn rows, o.same v = true :=
      fun {o} ho => Term.memberOf_iff.mp (memberOf_valuesIn_iff o |>.mpr ⟨o, ho, o.same_refl⟩)
    obtain ⟨v, hv, htv⟩ := hfound ht
    obtain ⟨w, hw, huw⟩ := hfound hu
    have hone : v = w := by
      generalize p.valuesIn rows = values at hv hw hfew
      match values, hfew with
      | [only], _ => rw [List.mem_singleton.mp hv, List.mem_singleton.mp hw]
      | _ :: _ :: _, hfew => exact absurd (by simp) hfew
    have hsame := Term.same_trans htv (Term.same_comm u v ▸ hone ▸ huw)
    rw [hdiffer] at hsame
    contradiction
  · intro hmany
    by_contra hagree
    refine absurd (length_valuesIn_le_one fun row hrow other hother t u ht hu => ?_)
      (Nat.not_le.mpr hmany)
    by_contra hdiffer
    exact hagree ⟨t, u, ⟨row, hrow, ht⟩, ⟨other, hother, hu⟩, Bool.eq_false_iff.mpr hdiffer⟩

theorem valuesIn_eq_nil_iff : p.valuesIn rows = [] ↔ ∀ t, ¬ p.BoundIn rows t := by
  constructor
  · rintro hnone t ht
    have hmember := (memberOf_valuesIn_iff t).mpr ⟨t, ht, t.same_refl⟩
    rw [hnone] at hmember
    contradiction
  · intro hunbound
    rw [List.eq_nil_iff_forall_not_mem]
    intro t ht
    obtain ⟨row, hrow, hterm⟩ := mem_valuesIn ht
    exact hunbound t ⟨row, hrow, hterm⟩

variable {uri : String} {v : Violation}

/-- A broken promise is told of the property and the entity whose rows break it. -/
theorem of_violationIn (h : p.violationIn uri rows = some v) :
    v.entityUri = uri ∧ v.property = p.name ∧ p.isFunctional = true ∧
      (v.kind = .multipleValues ∧ p.Disagree rows ∨
        v.kind = .missingValue ∧ p.isNullable = false ∧ ∀ t, ¬ p.BoundIn rows t) := by
  unfold violationIn at h
  dsimp only at h
  cases hone : p.isFunctional with
  | false => simp [hone] at h
  | true =>
      rw [hone] at h
      simp only [Bool.not_true, Bool.false_eq_true, if_false] at h
      split at h
      · next hmany =>
          obtain rfl := Option.some.inj h
          exact ⟨rfl, rfl, rfl, Or.inl ⟨rfl, disagree_iff.mpr hmany⟩⟩
      · split at h
        · next hnone =>
            obtain rfl := Option.some.inj h
            rw [Bool.and_eq_true, beq_iff_eq, Bool.not_eq_true'] at hnone
            exact ⟨rfl, rfl, rfl, Or.inr ⟨rfl, hnone.2,
              valuesIn_eq_nil_iff.mp (List.length_eq_zero_iff.mp hnone.1)⟩⟩
        · contradiction

theorem violationIn_of_disagree (hone : p.isFunctional = true) (h : p.Disagree rows) :
    p.violationIn uri rows = some (.multiple uri p.name (p.valuesIn rows).length) := by
  simp [violationIn, hone, disagree_iff.mp h]

theorem violationIn_of_unbound (hone : p.isFunctional = true) (hmust : p.isNullable = false)
    (h : ∀ t, ¬ p.BoundIn rows t) : p.violationIn uri rows = some (.missing uri p.name) := by
  simp [violationIn, hone, hmust, valuesIn_eq_nil_iff.mpr h]

end Property

namespace EntityType

variable {t : EntityType} {rows others : List Row} {uri name : String}

theorem property_stateIn (hnames : (t.properties.map Property.name).Nodup) {p : Property}
    (hp : p ∈ t.properties) : (t.stateIn rows).property p.name = p.stateIn rows := by
  rw [EntityState.property, stateIn,
    EntityState.lookup_map (Property.stateIn · rows) hnames hp]
  rfl

/-- What is told of rows: that an entity has several values, for a property of one, exactly if its
rows bind different terms, and that it has none, for a property that must have one, exactly if
none of its rows binds a term. -/
structure Tells (t : EntityType) (rows : List Row) (vs : List Violation) : Prop where
  multiple : ∀ uri name,
    (∃ v ∈ vs, v.kind = .multipleValues ∧ v.entityUri = uri ∧ v.property = name) ↔
      t.rowsAbout uri rows ≠ [] ∧ ∃ p ∈ t.properties, p.name = name ∧
        p.isFunctional = true ∧ p.Disagree (t.rowsAbout uri rows)
  missing : ∀ uri name,
    (∃ v ∈ vs, v.kind = .missingValue ∧ v.entityUri = uri ∧ v.property = name) ↔
      t.rowsAbout uri rows ≠ [] ∧ ∃ p ∈ t.properties, p.name = name ∧
        p.isFunctional = true ∧ p.isNullable = false ∧
          ∀ o, ¬ p.BoundIn (t.rowsAbout uri rows) o

/-- The violations in the rows of all entities. -/
def allViolationsIn (t : EntityType) (rows : List Row) : List Violation :=
  (t.subjectsIn rows).flatMap fun uri => t.violationsIn uri (t.rowsAbout uri rows)

theorem mem_allViolationsIn {v : Violation} : v ∈ t.allViolationsIn rows ↔
    ∃ uri, t.rowsAbout uri rows ≠ [] ∧
      ∃ p ∈ t.properties, p.violationIn uri (t.rowsAbout uri rows) = some v := by
  simp only [allViolationsIn, List.mem_flatMap, mem_subjectsIn, violationsIn, List.mem_filterMap]

theorem tells_allViolationsIn (t : EntityType) (rows : List Row) :
    t.Tells rows (t.allViolationsIn rows) := by
  constructor
  · intro uri name
    constructor
    · rintro ⟨v, hv, hkind, rfl, rfl⟩
      obtain ⟨uri, hsome, p, hp, hviolation⟩ := mem_allViolationsIn.mp hv
      obtain ⟨rfl, hname, hone, ⟨-, hdisagree⟩ | ⟨hother, -⟩⟩ := Property.of_violationIn hviolation
      · exact ⟨hsome, p, hp, hname.symm, hone, hdisagree⟩
      · rw [hkind] at hother
        contradiction
    · rintro ⟨hsome, p, hp, rfl, hone, hdisagree⟩
      exact ⟨_, mem_allViolationsIn.mpr ⟨uri, hsome, p, hp,
        Property.violationIn_of_disagree hone hdisagree⟩, rfl, rfl, rfl⟩
  · intro uri name
    constructor
    · rintro ⟨v, hv, hkind, rfl, rfl⟩
      obtain ⟨uri, hsome, p, hp, hviolation⟩ := mem_allViolationsIn.mp hv
      obtain ⟨rfl, hname, hone, ⟨hother, -⟩ | ⟨-, hmust, hunbound⟩⟩ :=
        Property.of_violationIn hviolation
      · rw [hkind] at hother
        contradiction
      · exact ⟨hsome, p, hp, hname.symm, hone, hmust, hunbound⟩
    · rintro ⟨hsome, p, hp, rfl, hone, hmust, hunbound⟩
      exact ⟨_, mem_allViolationsIn.mpr ⟨uri, hsome, p, hp,
        Property.violationIn_of_unbound hone hmust hunbound⟩, rfl, rfl, rfl⟩

/-! ### Whom rows are about, in order -/

/-- The IRIs that rows have for the entity, each once, in the order of their first rows.  In front
of the first row about an IRI are only rows that are about none or about one that comes earlier. -/
structure FirstSeen (t : EntityType) (rows : List Row) (uris : List String) : Prop where
  nodup : uris.Nodup
  mem_iff : ∀ uri, uri ∈ uris ↔ ∃ row ∈ rows, row.term? t.anchor = some (.iri uri)
  ordered : ∀ before uri behind, uris = before ++ uri :: behind →
    ∃ front row rest, rows = front ++ row :: rest ∧ row.term? t.anchor = some (.iri uri) ∧
      ∀ other ∈ front, ∀ u, other.term? t.anchor = some (.iri u) → u ∈ before

theorem firstSeen_subjectsIn (t : EntityType) (rows : List Row) :
    t.FirstSeen rows (t.subjectsIn rows) where
  nodup := Algebra.nodup_distinctNames _
  mem_iff uri := by
    simp only [subjectsIn, Algebra.mem_distinctNames, List.mem_filterMap, subjectOf?_eq_some]
  ordered before uri behind hsplit := by
    obtain ⟨front, rest, hnames, hearlier⟩ := Algebra.exists_first_of_distinctNames hsplit
    obtain ⟨rows₁, rows₂, rfl, rfl, hrest⟩ := List.filterMap_eq_append_iff.mp hnames
    obtain ⟨skipped, row, rows₃, rfl, hnone, hsubject, -⟩ := List.filterMap_eq_cons_iff.mp hrest
    refine ⟨rows₁ ++ skipped, row, rows₃, by simp, subjectOf?_eq_some.mp hsubject, ?_⟩
    intro other hother u hterm
    have hown : t.subjectOf? other = some u := subjectOf?_eq_some.mpr hterm
    rcases List.mem_append.mp hother with hother | hother
    · exact hearlier u (List.mem_filterMap.mpr ⟨other, hother, hown⟩)
    · rw [hnone other hother] at hown
      contradiction

/-! ### Rows in another order -/

theorem perm_rowsAbout (h : rows.Perm others) (uri : String) :
    (t.rowsAbout uri rows).Perm (t.rowsAbout uri others) :=
  h.filter _

theorem mem_subjectsIn_perm (h : rows.Perm others) :
    uri ∈ t.subjectsIn rows ↔ uri ∈ t.subjectsIn others := by
  rw [(firstSeen_subjectsIn t rows).mem_iff, (firstSeen_subjectsIn t others).mem_iff]
  simp only [h.mem_iff]

theorem perm_subjectsIn (h : rows.Perm others) : (t.subjectsIn rows).Perm (t.subjectsIn others) :=
  (List.perm_ext_iff_of_nodup (firstSeen_subjectsIn t rows).nodup
    (firstSeen_subjectsIn t others).nodup).mpr fun _ => mem_subjectsIn_perm h

theorem alike_rowsAbout (h : rows.Perm others) (uri : String) (p : Property) :
    p.Alike (t.rowsAbout uri rows) (t.rowsAbout uri others) :=
  (perm_rowsAbout h uri).map _

theorem perm_allViolationsIn (h : rows.Perm others) :
    (t.allViolationsIn rows).Perm (t.allViolationsIn others) := by
  have hsame : ∀ uri, t.violationsIn uri (t.rowsAbout uri rows) =
      t.violationsIn uri (t.rowsAbout uri others) :=
    fun uri => violationsIn_alike (fun p _ => alike_rowsAbout h uri p) uri
  unfold allViolationsIn
  simp only [hsame]
  exact (perm_subjectsIn h).flatMap_right _

end EntityType

end EntityMapping
