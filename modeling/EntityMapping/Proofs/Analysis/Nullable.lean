import EntityMapping.Analysis
import EntityMapping.Proofs.Entity.Type
import EntityMapping.Proofs.Sparql.Admitted
import EntityMapping.Proofs.Sparql.Projection

/-!
What it means that a variable is not nullable.

The analysis calls a variable nullable when the walk meets it in optional parts only.  A triple
outside all of them is matched in every solution, so a variable that is not nullable is bound
whatever the graph holds and whatever the conditions of the query mean.
-/

namespace EntityMapping

open Sparql (Algebra Meaning Prologue Query Solution TriplePattern)

namespace Pattern

mutual

/-- The triples of the tree that lie in no optional part, depth first. -/
def outsideOptional : Pattern → List TriplePattern
  | .basic ts => ts
  | .group children => outsideOptionalOfAll children
  | .optional _ => []
  | .union branches => outsideOptionalOfAll branches
  | .unsupported _ => []
  | .foreign _ => []

/-- The triples of the trees that lie in no optional part, in order. -/
def outsideOptionalOfAll : List Pattern → List TriplePattern
  | [] => []
  | p :: rest => p.outsideOptional ++ outsideOptionalOfAll rest

end

/-- Whether the variable is the subject or the object of a triple outside the optional parts. -/
def Requires (name : String) (p : Pattern) : Prop :=
  ∃ t ∈ p.outsideOptional, t.subject = .var name ∨ t.object = .var name

theorem outsideOptional_pair (p q : Pattern) :
    (Pattern.group [p, q]).outsideOptional = p.outsideOptional ++ q.outsideOptional := by
  simp only [outsideOptional, outsideOptionalOfAll, List.append_nil]

end Pattern

/-! ### The walk -/

namespace Visit

/-- The triple that was visited. -/
def pattern (v : Visit) : TriplePattern := .plain v.subject (.iri v.predicate) v.object

/-- The visits of a walk inside the optional parts of `context`, given the triples that lie in no
further ones: these are the visits in just that context, in order. -/
structure Walks (context : List Nat) (triples : List TriplePattern) (visits : List Visit) :
    Prop where
  inside : ∀ v ∈ visits, context <+: v.context
  here : (visits.filter (·.context == context)).map pattern = triples

variable {context : List Nat} {triples others : List TriplePattern} {visits more : List Visit}

theorem Walks.nil : Walks context [] [] :=
  ⟨fun _ h => absurd h List.not_mem_nil, rfl⟩

theorem Walks.append (h : Walks context triples visits) (hmore : Walks context others more) :
    Walks context (triples ++ others) (visits ++ more) where
  inside := List.forall_mem_append.mpr ⟨h.inside, hmore.inside⟩
  here := by rw [List.filter_append, List.map_append, h.here, hmore.here]

/-- Seen from outside, an optional part has no visit. -/
theorem Walks.optional {n : Nat} (h : Walks (context ++ [n]) triples visits) :
    Walks context [] visits where
  inside v hv := (List.prefix_append context [n]).trans (h.inside v hv)
  here := by
    rw [List.map_eq_nil_iff, List.filter_eq_nil_iff]
    intro v hv heq
    have hlength := (h.inside v hv).length_le
    rw [beq_iff_eq.mp heq, List.length_append, List.length_singleton] at hlength
    omega

theorem ofTriple_ok {t : TriplePattern} {v : Visit} (h : ofTriple context t = .ok v) :
    v.context = context ∧ v.pattern = t := by
  unfold ofTriple at h
  split at h
  · next hpredicate =>
      obtain rfl := Except.ok.inj h
      exact ⟨rfl, by rw [pattern, TriplePattern.plain, ← hpredicate]⟩
  · contradiction
  · contradiction

theorem walks_mapM (h : triples.mapM (ofTriple context) = .ok visits) :
    Walks context triples visits := by
  replace h := forall₂_of_mapM h
  induction h with
  | nil => exact .nil
  | @cons t v triples more hv _ ih =>
      obtain ⟨hcontext, hpattern⟩ := ofTriple_ok hv
      have hfirst : Walks context [t] [v] := by
        constructor
        · intro w hw
          obtain rfl := List.mem_singleton.mp hw
          exact hcontext ▸ List.prefix_refl _
        · simp [hcontext, hpattern]
      exact hfirst.append ih

mutual

/-- Along the tree: what lies in no optional part is visited in the context that the walk started
in, and what lies in one is visited further inside. -/
theorem walks_ofPattern {context : List Nat} {next after : Nat} {p : Pattern}
    {visits : List Visit} (h : ofPattern context next p = .ok (visits, after)) :
    Walks context p.outsideOptional visits := by
  match p, h with
  | .basic ts, h =>
      obtain ⟨found, hfound, h⟩ := bind_eq_ok.mp h
      cases pure_eq_ok.mp h
      exact walks_mapM hfound
  | .group children, h => exact walks_ofPatterns h
  | .optional child, h =>
      have hchild : ofPattern (context ++ [next]) (next + 1) child = .ok (visits, after) := h
      exact (walks_ofPattern hchild).optional

/-- The same for several trees in order. -/
theorem walks_ofPatterns {context : List Nat} {next after : Nat} {ps : List Pattern}
    {visits : List Visit} (h : ofPatterns context next ps = .ok (visits, after)) :
    Walks context (Pattern.outsideOptionalOfAll ps) visits := by
  match ps, h with
  | [], h =>
      cases Except.ok.inj h
      exact .nil
  | p :: rest, h =>
      obtain ⟨⟨found, _⟩, hfound, h⟩ := bind_eq_ok.mp h
      obtain ⟨⟨others, _⟩, hothers, h⟩ := bind_eq_ok.mp h
      cases pure_eq_ok.mp h
      exact (walks_ofPattern hfound).append (walks_ofPatterns hothers)

end

theorem all_ok {p : Pattern} {visits : List Visit} (h : all p = .ok visits) :
    ∃ next, ofPattern [] 0 p = .ok (visits, next) := by
  unfold all at h
  cases hwalk : ofPattern [] 0 p with
  | error e =>
      rw [hwalk] at h
      contradiction
  | ok out =>
      rw [hwalk] at h
      exact ⟨out.2, Except.ok.inj h ▸ rfl⟩

end Visit

/-! ### Solutions of a pattern that can be walked -/

namespace Sparql.Solution

/-- Whatever one solution binds among some names, the other binds to the same term. -/
def WithinOn (kept : String → Prop) (s t : Solution) : Prop :=
  ∀ name, kept name → ∀ known, s.term? name = some known →
    ∃ other, t.term? name = some other ∧ other.same known = true

variable {kept fewer : String → Prop} {s t u : Solution}

theorem Within.withinOn (h : s.Within t) : s.WithinOn kept t := fun name _ known hs =>
  ⟨known, h name known hs, Term.same_refl known⟩

theorem WithinOn.trans (hfewer : ∀ name, fewer name → kept name) (hst : s.WithinOn kept t)
    (htu : t.WithinOn fewer u) : s.WithinOn fewer u := by
  intro name hname known hs
  obtain ⟨middle, hmiddle, hsame⟩ := hst name (hfewer name hname) known hs
  obtain ⟨other, hother, hsame'⟩ := htu name hname middle hmiddle
  exact ⟨other, hother, Term.same_trans hsame' hsame⟩

theorem WithinOn.binds (h : s.WithinOn kept t) {name : String} (hname : kept name)
    (hs : s.binds name = true) : t.binds name = true := by
  obtain ⟨known, hknown⟩ := Option.isSome_iff_exists.mp hs
  obtain ⟨other, hother, -⟩ := h name hname known hknown
  exact Option.isSome_iff_exists.mpr ⟨other, hother⟩

theorem withinOn_merge (h : s.compatible t = true) : t.WithinOn kept (s.merge t) := by
  intro name _ known hknown
  rw [term?_merge]
  cases hs : s.term? name with
  | none => exact ⟨known, hknown, Term.same_refl known⟩
  | some other =>
      obtain ⟨before, behind, hentries, -⟩ := List.lookup_eq_some_iff.mp hs
      have hmem : (name, other) ∈ s := hentries ▸ List.mem_append_right _ List.mem_cons_self
      have hagrees := List.all_eq_true.mp h _ hmem
      simp only [hs, hknown] at hagrees
      exact ⟨other, rfl, hagrees⟩

theorem withinOn_restrict {names : List String} (h : ∀ name, kept name → name ∈ names) :
    s.WithinOn kept (s.restrict names) := by
  intro name hname known hs
  refine ⟨known, ?_, Term.same_refl known⟩
  rw [term?_restrict, if_pos (h name hname), hs]

end Sparql.Solution

namespace Sparql.Algebra

variable {m : Meaning} {g : Graph} {name : String}

/-- Of a pattern that the walk accepts, every solution matches the triples outside the optional
parts, as far as no projection drops what they bind. -/
theorem exists_matches {p : Algebra} {context : List Nat} {next : Nat} {out : List Visit × Nat}
    (hwalk : Visit.ofPattern context next (.ofAlgebra p) = .ok out) {t : TriplePattern}
    (ht : t ∈ (Pattern.ofAlgebra p).outsideOptional) {s : Solution} (hs : p.Admits m g s) :
    ∃ u : Solution, t.Matches g u ∧ u.WithinOn (fun name => p.Keeps name) s := by
  induction p generalizing context next out s with
  | bgp ts => exact ⟨s, hs t ht, (Solution.Within.refl s).withinOn⟩
  | join l r ihl ihr =>
      obtain ⟨⟨_, _⟩, hl, hwalk⟩ := bind_eq_ok.mp hwalk
      obtain ⟨⟨_, _⟩, hwalk, -⟩ := bind_eq_ok.mp hwalk
      obtain ⟨⟨_, _⟩, hr, -⟩ := bind_eq_ok.mp hwalk
      obtain ⟨a, b, ha, hb, hfits, rfl⟩ := hs
      rw [Pattern.ofAlgebra, Pattern.outsideOptional_pair] at ht
      rcases List.mem_append.mp ht with ht | ht
      · obtain ⟨u, hu, hwithin⟩ := ihl hl ht ha
        exact ⟨u, hu, hwithin.trans (fun _ h => h.1) (Solution.within_merge a b).withinOn⟩
      · obtain ⟨u, hu, hwithin⟩ := ihr hr ht hb
        exact ⟨u, hu, hwithin.trans (fun _ h => h.2) (Solution.withinOn_merge hfits)⟩
  | leftJoin l r condition ihl _ =>
      unfold Pattern.ofAlgebra at hwalk ht
      split at hwalk
      · contradiction
      · next htest =>
          rw [if_neg htest, Pattern.outsideOptional_pair, Pattern.outsideOptional,
            List.append_nil] at ht
          obtain ⟨_, hl, -⟩ := bind_eq_ok.mp hwalk
          rcases hs with hs | ⟨a, b, ha, -, -, rfl, -⟩
          · obtain ⟨u, hu, hwithin⟩ := ihl hl ht hs
            exact ⟨u, hu, hwithin.trans (fun _ h => h.1) (Solution.Within.refl s).withinOn⟩
          · obtain ⟨u, hu, hwithin⟩ := ihl hl ht ha
            exact ⟨u, hu, hwithin.trans (fun _ h => h.1) (Solution.within_merge a b).withinOn⟩
  | filter condition p ih =>
      unfold Pattern.ofAlgebra at hwalk ht
      split at hwalk
      · contradiction
      · next htest =>
          rw [if_neg htest] at ht
          exact ih hwalk ht hs.1
  | extend p value label ih =>
      obtain ⟨a, ha, rfl⟩ := hs
      obtain ⟨u, hu, hwithin⟩ := ih hwalk ht ha
      refine ⟨u, hu, ?_⟩
      cases m.value value a with
      | none => exact hwithin
      | some t => exact hwithin.trans (fun _ h => h) (a.within_assign label t).withinOn
  | union l r => contradiction
  | minus l r => contradiction
  | graph label p => contradiction
  | service label p => contradiction
  | values names rows =>
      unfold Pattern.ofAlgebra at hwalk ht
      split at hwalk
      · contradiction
      · next hrows =>
          rw [if_neg hrows] at ht
          exact absurd ht List.not_mem_nil
  | subSelect p => contradiction
  | aggregateJoin p => contradiction
  | orderBy p keys ih => exact ih hwalk ht hs
  | project p names ih =>
      obtain ⟨a, ha, rfl⟩ := hs
      obtain ⟨u, hu, hwithin⟩ := ih hwalk ht ha
      exact ⟨u, hu, hwithin.trans (fun _ h => h.2) (Solution.withinOn_restrict fun _ h => h.1)⟩
  | distinct p ih => exact ih hwalk ht hs
  | reduced p ih => exact ih hwalk ht hs
  | slice p start length ih => exact ih hwalk ht hs

/-- Of a pattern that the walk accepts, every solution binds the variables outside the optional
parts, unless a projection drops them. -/
theorem binds_of_requires {p : Algebra} (hkeeps : p.Keeps name) {context : List Nat} {next : Nat}
    {out : List Visit × Nat} (hwalk : Visit.ofPattern context next (.ofAlgebra p) = .ok out)
    (hrequires : (Pattern.ofAlgebra p).Requires name) {s : Solution} (hs : p.Admits m g s) :
    s.binds name = true := by
  obtain ⟨t, ht, hends⟩ := hrequires
  obtain ⟨u, ⟨a, b, ha, hb, -⟩, hwithin⟩ := exists_matches hwalk ht hs
  apply hwithin.binds hkeeps
  rcases hends with hsubject | hobject
  · exact (hsubject ▸ ha).binds
  · exact (hobject ▸ hb).binds

end Sparql.Algebra

/-- A selection that was read has the pattern of the query that its text is. -/
theorem SelectQuery.read_ok {namespaces : List (String × String)} {text : String}
    {q : SelectQuery} (h : SelectQuery.read namespaces text = .ok q) :
    ∃ p, Query.read (Prologue.initial.declareAll namespaces) text =
      some (.select p q.projected) ∧ q.pattern = .ofAlgebra p := by
  unfold SelectQuery.read at h
  split at h
  · contradiction
  · contradiction
  · contradiction
  · contradiction
  · next p projected hquery =>
      cases Except.ok.inj h
      exact ⟨p, hquery, rfl⟩

/-- What is read from a text: its query, and the two parts that it is cut into. -/
theorem SelectQuery.read_eq {namespaces : List (String × String)} {text : String} {p : Algebra}
    {projected : List String}
    (h : Query.read (Prologue.initial.declareAll namespaces) text = some (.select p projected)) :
    SelectQuery.read namespaces text = .ok {
      text := text
      declarations := declarationText namespaces (splitText text).1
      body := String.ofList (Text.trim (splitText text).2)
      projected := projected
      pattern := .ofAlgebra p } := by
  unfold SelectQuery.read
  rw [h]

namespace Analysis

/-- A variable is not nullable exactly if the walk meets it outside all optional parts. -/
theorem isNullable_eq_false {p : Pattern} {visits : List Visit} (h : Visit.all p = .ok visits)
    (name : String) : isNullable visits name = false ↔ p.Requires name := by
  obtain ⟨next, hwalk⟩ := Visit.all_ok h
  have hhere := (Visit.walks_ofPattern hwalk).here
  rw [Pattern.Requires, ← hhere]
  simp only [isNullable, contextsOf, Bool.not_eq_false', List.contains_iff_mem, List.mem_map,
    List.mem_filter, Visit.mentions, Visit.hasSubject, Visit.hasObject, Bool.or_eq_true,
    beq_iff_eq]
  constructor
  · rintro ⟨v, ⟨hv, hends⟩, hcontext⟩
    exact ⟨v.pattern, ⟨v, ⟨hv, hcontext⟩, rfl⟩, hends⟩
  · rintro ⟨_, ⟨v, ⟨hv, hcontext⟩, rfl⟩, hends⟩
    exact ⟨v, ⟨hv, hends⟩, hcontext⟩

/-- What is described is what the properties of its variable were found to be. -/
theorem mem_of_mapM {names : List String} {f : String → Except MappingError VariableProperties}
    {described : List (String × VariableProperties)}
    (h : names.mapM (fun name => do return (name, ← f name)) = .ok described)
    {name : String} {v : VariableProperties} (hmem : (name, v) ∈ described) :
    name ∈ names ∧ f name = .ok v := by
  replace h := forall₂_of_mapM h
  induction h with
  | nil => exact absurd hmem List.not_mem_nil
  | cons hentry _ ih =>
      rcases List.mem_cons.mp hmem with rfl | hmem
      · obtain ⟨w, hw, heq⟩ := bind_eq_ok.mp hentry
        cases pure_eq_ok.mp heq
        exact ⟨List.mem_cons_self, hw⟩
      · obtain ⟨hname, hv⟩ := ih hmem
        exact ⟨List.mem_cons_of_mem _ hname, hv⟩

theorem propertiesOf_ok {hints : SchemaHints} {visits : List Visit} {anchor name : String}
    {v : VariableProperties} (h : propertiesOf hints visits anchor name = .ok v) :
    v.nullable = isNullable visits name ∧
      v.functional = isFunctional hints (Visit.dependencies visits) anchor name ∧
      owningPredicate name (directPredicates (Visit.dependencies visits) anchor name) =
        .ok v.predicate := by
  unfold propertiesOf at h
  rw [guard_eq_ok] at h
  obtain ⟨-, h⟩ := h
  obtain ⟨predicate, hpredicate, h⟩ := bind_eq_ok.mp h
  obtain rfl := pure_eq_ok.mp h
  exact ⟨rfl, rfl, hpredicate⟩

/-- An analysis is made of the visits of one walk. -/
structure MadeOf (q : SelectQuery) (anchor : String) (hints : SchemaHints) (visits : List Visit)
    (a : Analysis) : Prop where
  walk : Visit.all q.pattern = .ok visits
  projected : anchor ∈ q.projected
  dependencies : a.dependencies = Visit.dependencies visits
  described : ∀ name v, (name, v) ∈ a.described →
    name ∈ q.projected ∧ propertiesOf hints visits anchor name = .ok v

theorem exists_madeOf {q : SelectQuery} {anchor : String} {hints : SchemaHints} {a : Analysis}
    (h : derive q anchor hints = .ok a) : ∃ visits, MadeOf q anchor hints visits a := by
  unfold derive at h
  rw [guard_eq_ok] at h
  obtain ⟨hanchor, h⟩ := h
  obtain ⟨visits, hvisits, h⟩ := bind_eq_ok.mp h
  obtain ⟨described, hdescribed, h⟩ := bind_eq_ok.mp h
  obtain rfl := pure_eq_ok.mp h
  refine ⟨visits, hvisits, by simpa using hanchor, rfl, ?_⟩
  intro name v hmem
  obtain ⟨htarget, hv⟩ := mem_of_mapM hdescribed hmem
  exact ⟨(List.mem_filter.mp (Algebra.mem_distinctNames.mp htarget)).1, hv⟩

theorem derive_ok {q : SelectQuery} {anchor : String} {hints : SchemaHints} {a : Analysis}
    (h : derive q anchor hints = .ok a) :
    ∃ visits, Visit.all q.pattern = .ok visits ∧
      ∀ name v, (name, v) ∈ a.described →
        name ∈ q.projected ∧ v.nullable = isNullable visits name := by
  obtain ⟨visits, hmade⟩ := exists_madeOf h
  refine ⟨visits, hmade.walk, ?_⟩
  intro name v hmem
  obtain ⟨hprojected, hv⟩ := hmade.described name v hmem
  exact ⟨hprojected, (propertiesOf_ok hv).1⟩

/-- A variable is not nullable exactly if it is the subject or the object of a triple that lies in
no optional part.  In a selection that was read, every solution binds such a variable: whatever the
graph holds, whatever the expressions of the query mean, and in the evaluation known here. -/
theorem binds_of_not_nullable {q : SelectQuery} {anchor : String} {hints : SchemaHints}
    {a : Analysis} (h : derive q anchor hints = .ok a) {name : String} {v : VariableProperties}
    (hv : (name, v) ∈ a.described) :
    (v.nullable = false ↔
      ∃ t ∈ q.pattern.outsideOptional, t.subject = .var name ∨ t.object = .var name) ∧
    ∀ namespaces text, SelectQuery.read namespaces text = .ok q → v.nullable = false →
      ∃ p, Query.read (Prologue.initial.declareAll namespaces) text =
          some (.select p q.projected) ∧
        (∀ m g s, p.Admits m g s → s.binds name = true) ∧
        ∀ g, ∀ s ∈ p.solutions g, s.binds name = true := by
  obtain ⟨visits, hvisits, hdescribed⟩ := derive_ok h
  obtain ⟨hprojected, hnullable⟩ := hdescribed name v hv
  have hiff : v.nullable = false ↔ q.pattern.Requires name :=
    hnullable ▸ isNullable_eq_false hvisits name
  refine ⟨hiff, ?_⟩
  intro namespaces text hread hfalse
  obtain ⟨p, hquery, hpattern⟩ := SelectQuery.read_ok hread
  have hkeeps := Query.keepsProjected_of_read hquery name hprojected
  have hbinds : ∀ m g s, p.Admits m g s → s.binds name = true := by
    intro m g s hs
    obtain ⟨next, hwalk⟩ := Visit.all_ok hvisits
    rw [hpattern] at hwalk
    exact Algebra.binds_of_requires hkeeps hwalk (hpattern ▸ hiff.mp hfalse) hs
  refine ⟨p, hquery, hbinds, ?_⟩
  intro g s hs
  exact hbinds .known g s (Algebra.admits_of_mem_solutions hs)

/-- Notes with their titles and, where there is one, a remark. -/
def remarkedNotes : String :=
  "SELECT * WHERE \x7b ?n e:title ?title OPTIONAL \x7b ?n e:remark ?remark \x7d \x7d"

theorem binds_title :
    ∃ q a v, SelectQuery.read [("e", "http://e/")] remarkedNotes = .ok q ∧
      derive q "n" .none = .ok a ∧ ("title", v) ∈ a.described ∧ v.nullable = false ∧
      ∃ p, Query.read (Prologue.initial.declareAll [("e", "http://e/")]) remarkedNotes =
          some (.select p q.projected) ∧
        ∀ g, ∀ s ∈ p.solutions g, s.binds "title" = true := by
  have hfound : ((SelectQuery.read [("e", "http://e/")] remarkedNotes).toOption.any fun q =>
      (derive q "n" .none).toOption.any fun a =>
        a.described.any fun entry => entry.1 == "title" && !entry.2.nullable) = true := by
    decide +kernel
  cases hread : SelectQuery.read [("e", "http://e/")] remarkedNotes with
  | error e => simp [hread, Except.toOption] at hfound
  | ok q =>
      cases hderive : derive q "n" .none with
      | error e => simp [hread, hderive, Except.toOption] at hfound
      | ok a =>
          simp only [hread, hderive, Except.toOption, Option.any_some, List.any_eq_true,
            Bool.and_eq_true, beq_iff_eq, Bool.not_eq_true'] at hfound
          obtain ⟨⟨_, v⟩, hv, rfl, hfalse⟩ := hfound
          obtain ⟨p, hquery, -, hbinds⟩ :=
            (binds_of_not_nullable hderive hv).2 _ remarkedNotes hread hfalse
          exact ⟨q, a, v, rfl, hderive, hv, hfalse, p, hquery, hbinds⟩

end Analysis

end EntityMapping
