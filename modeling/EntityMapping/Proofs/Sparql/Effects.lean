import EntityMapping.Proofs.Graph
import EntityMapping.Proofs.Sparql.Sources
import Mathlib.Data.List.Basic

/-!
What the steps of an update do to the triples that a graph holds.
-/

namespace EntityMapping

namespace Sparql

open EntityMapping.Graph

/-- A term that is no blank node. -/
def NoBlank (t : Term) : Prop :=
  ∀ label, t ≠ .blank label

theorem renameBlank_of_noBlank {t : Term} (h : NoBlank t) (rename : String → String) :
    renameBlank rename t = t := by
  cases t with
  | blank label => exact absurd rfl (h label)
  | _ => rfl

/-- A plain triple without blank nodes. -/
inductive Named : TriplePattern → Prop where
  | plain {s p o : Term} (hs : NoBlank s) (hp : NoBlank p) (ho : NoBlank o) :
      Named (.plain s p o)

theorem Named.renameBlanks {q : TriplePattern} (h : Named q) {t : Triple}
    (ht : q.triple? = some t) (rename : String → String) : Triple.renameBlanks rename t = t := by
  cases h with
  | plain hs hp ho =>
      obtain rfl := Option.some.inj ht
      simp only [TriplePattern.plain, Triple.renameBlanks, renameBlank_of_noBlank hs,
        renameBlank_of_noBlank hp, renameBlank_of_noBlank ho]

namespace UpdateStep

/-- A step that makes no new nodes. -/
def Named : UpdateStep → Prop
  | .insertData triples => ∀ q ∈ triples, Sparql.Named q
  | .deleteData triples => ∀ q ∈ triples, Sparql.Named q
  | .deleteWhere triples => ∀ q ∈ triples, Sparql.Named q
  | .modify removed added _ => (∀ q ∈ removed, Sparql.Named q) ∧ ∀ q ∈ added, Sparql.Named q

theorem dataTriples_of_named {triples : List TriplePattern} (h : ∀ q ∈ triples, Sparql.Named q)
    (place : String) : dataTriples place triples = triples.filterMap TriplePattern.triple? := by
  rw [dataTriples]
  refine (List.map_congr_left fun t ht => ?_).trans (List.map_id _)
  obtain ⟨q, hq, hqt⟩ := List.mem_filterMap.mp ht
  exact (h q hq).renameBlanks hqt _

/-- The triple of a template in a solution, with its blank nodes named anew. -/
def renamedInstance? (rename : String → String) (s : Solution) (q : TriplePattern) :
    Option Triple :=
  q.triple?.bind fun t =>
    let t := Triple.renameBlanks rename t
    TriplePattern.instance? ⟨t.subject, .step t.predicate, t.object⟩ s

theorem renamedInstance_of_named {q : TriplePattern} (h : Sparql.Named q)
    (rename : String → String) (s : Solution) :
    renamedInstance? rename s q = q.instance? s := by
  cases h with
  | plain hs hp ho =>
      simp only [renamedInstance?, TriplePattern.triple?, TriplePattern.plain, Option.bind_some,
        Triple.renameBlanks, renameBlank_of_noBlank hs, renameBlank_of_noBlank hp,
        renameBlank_of_noBlank ho]

theorem templateTriples_of_named {triples : List TriplePattern}
    (h : ∀ q ∈ triples, Sparql.Named q) (place : String) (solutions : List Solution) :
    templateTriples place triples solutions =
      solutions.flatMap fun s => triples.filterMap (·.instance? s) := by
  have hindex : ∀ entry : Solution × Nat,
      (triples.filterMap (renamedInstance?
        (fun label => label ++ place ++ "." ++ toString entry.2) entry.1)) =
        triples.filterMap (·.instance? entry.1) := fun entry =>
    List.filterMap_congr fun q hq => renamedInstance_of_named (h q hq) _ _
  have hall : templateTriples place triples solutions =
      solutions.zipIdx.flatMap fun entry => triples.filterMap (·.instance? entry.1) :=
    congrArg (fun f => solutions.zipIdx.flatMap f) (funext hindex)
  have hfirst := List.flatMap_map Prod.fst
    (fun s => triples.filterMap (·.instance? s)) solutions.zipIdx
  rw [hall, ← hfirst, List.zipIdx_map_fst]

/-- A step without blank nodes does the same at every place. -/
theorem apply_of_named {step : UpdateStep} (h : step.Named) (place : String) (g : Graph) :
    step.apply place g = step.apply "" g := by
  cases step with
  | insertData triples => simp only [apply, effect, dataTriples_of_named h]
  | deleteData triples => simp only [apply, effect, dataTriples_of_named h]
  | deleteWhere triples => simp only [apply, effect, templateTriples_of_named h]
  | modify removed added pattern =>
      simp only [apply, effect, templateTriples_of_named h.1, templateTriples_of_named h.2]

end UpdateStep

/-! ### Patterns of one triple -/

/-- A term that stands for itself in a pattern. -/
inductive Ground : Term → Prop where
  | iri (s : String) : Ground (.iri s)
  | literal (l : Literal) : Ground (.literal l)

variable {s p o : Term}

theorem Ground.noBlank {t : Term} (h : Ground t) : NoBlank t := by
  rintro label rfl
  cases h

theorem noBlank_var (name : String) : NoBlank (.var name) := fun _ => nofun

theorem Ground.matchTerm {t : Term} (h : Ground t) (u : Term) (s : Solution) :
    matchTerm t u s = if t.same u then some s else none := by
  cases h <;> rfl

theorem Ground.placeTerm {t : Term} (h : Ground t) (s : Solution) :
    TriplePattern.placeTerm? s t = some t := by
  cases h <;> rfl

/-- A pattern without variables is met by its own triple and binds nothing. -/
theorem matchTriple_ground (hs : Ground s) (hp : Ground p) (ho : Ground o) (t : Triple) :
    (TriplePattern.plain s p o).matchTriple t Solution.empty =
      if (⟨s, p, o⟩ : Triple).same t then some Solution.empty else none := by
  by_cases hsubject : s.same t.subject <;> by_cases hpredicate : p.same t.predicate <;>
    simp [TriplePattern.plain, TriplePattern.matchTriple, Triple.same, hs.matchTerm, hp.matchTerm,
      ho.matchTerm, hsubject, hpredicate]

/-- A variable that is not bound yet is bound to what it meets. -/
theorem matchTerm_fresh {name : String} {σ : Solution} (h : σ.term? name = none) (t : Term) :
    matchTerm (.var name) t σ = some (σ ++ [(name, t)]) := by
  have hfresh : [(name, t)].filter (fun entry => !σ.binds entry.1) = [(name, t)] := by
    simp [Solution.binds, h]
  simp only [matchTerm, unknownName?, h, Solution.assign, Solution.merge, hfresh]

theorem term_single {a b : String} (hab : a ≠ b) (t : Term) :
    Solution.term? [(a, t)] b = none := by
  have hother : (b == a) = false := beq_false_of_ne (Ne.symm hab)
  simp [Solution.term?, List.lookup_cons, hother]

theorem matchTriple_subject (hs : Ground s) {b c : String} (hbc : b ≠ c) (t : Triple) :
    (TriplePattern.plain s (.var b) (.var c)).matchTriple t Solution.empty =
      if s.same t.subject then some [(b, t.predicate), (c, t.object)] else none := by
  have hsecond := matchTerm_fresh (Solution.term?_empty b) t.predicate
  have hthird := matchTerm_fresh (term_single hbc t.predicate) t.object
  simp only [TriplePattern.plain, TriplePattern.matchTriple, hs.matchTerm]
  split
  · simp only [Option.bind_eq_bind, Option.bind_some, hsecond]
    exact hthird
  · rfl

theorem matchTriple_object (ho : Ground o) {a b : String} (hab : a ≠ b) (t : Triple) :
    (TriplePattern.plain (.var a) (.var b) o).matchTriple t Solution.empty =
      if o.same t.object then some [(a, t.subject), (b, t.predicate)] else none := by
  have hfirst := matchTerm_fresh (Solution.term?_empty a) t.subject
  have hsecond := matchTerm_fresh (term_single hab t.subject) t.predicate
  simp only [TriplePattern.plain, TriplePattern.matchTriple, Option.bind_eq_bind, hfirst,
    Option.bind_some]
  change (matchTerm (.var b) t.predicate [(a, t.subject)]).bind _ = _
  rw [hsecond, Option.bind_some, ho.matchTerm]
  rfl

theorem instance_ground (hs : Ground s) (hp : Ground p) (ho : Ground o) (σ : Solution) :
    (TriplePattern.plain s p o).instance? σ = some ⟨s, p, o⟩ := by
  simp [TriplePattern.plain, TriplePattern.instance?, TriplePattern.triple?, hs.placeTerm,
    hp.placeTerm, ho.placeTerm]

theorem placeTerm_var (σ : Solution) (name : String) :
    TriplePattern.placeTerm? σ (.var name) = σ.term? name := rfl

theorem term_pair {a b : String} (hab : a ≠ b) (t u : Term) :
    Solution.term? [(a, t), (b, u)] a = some t ∧ Solution.term? [(a, t), (b, u)] b = some u := by
  have hother : (b == a) = false := beq_false_of_ne (Ne.symm hab)
  simp [Solution.term?, List.lookup_cons, hother]

theorem instance_subject (hs : Ground s) {b c : String} (hbc : b ≠ c) (u v : Term) :
    (TriplePattern.plain s (.var b) (.var c)).instance? [(b, u), (c, v)] = some ⟨s, u, v⟩ := by
  obtain ⟨hb, hc⟩ := term_pair hbc u v
  simp [TriplePattern.plain, TriplePattern.instance?, TriplePattern.triple?, hs.placeTerm,
    placeTerm_var, hb, hc]

theorem instance_object (ho : Ground o) {a b : String} (hab : a ≠ b) (u v : Term) :
    (TriplePattern.plain (.var a) (.var b) o).instance? [(a, u), (b, v)] = some ⟨u, v, o⟩ := by
  obtain ⟨ha, hb⟩ := term_pair hab u v
  simp [TriplePattern.plain, TriplePattern.instance?, TriplePattern.triple?, ho.placeTerm,
    placeTerm_var, ha, hb]

theorem solutions_single (g : Graph) (q : TriplePattern) :
    (Algebra.bgp [q]).solutions g = g.filterMap fun t => q.matchTriple t Solution.empty := by
  have hsolve : (Algebra.bgp [q]).solutions g =
      (g.filterMap fun t => q.matchTriple t Solution.empty).flatMap fun σ => [σ] := rfl
  rw [hsolve, List.flatMap_singleton']

/-- The triples of a template for a pattern of one triple, found triple by triple. -/
theorem templateTriples_single {q r : TriplePattern} (hq : Named q) {f : Triple → Option Triple}
    (hf : ∀ t, (r.matchTriple t Solution.empty).bind q.instance? = f t) (place : String)
    (g : Graph) :
    UpdateStep.templateTriples place [q] ((Algebra.bgp [r]).solutions g) = g.filterMap f := by
  have hone : ∀ u ∈ [q], Named u := fun u hu => by rwa [List.mem_singleton.mp hu]
  have hsingle : ∀ σ : Solution, [q].filterMap (·.instance? σ) = (q.instance? σ).toList :=
    fun σ => by cases h : q.instance? σ <;> simp [h]
  rw [UpdateStep.templateTriples_of_named hone, solutions_single]
  simp only [hsingle]
  rw [← List.filterMap_eq_flatMap_toList, List.filterMap_filterMap]
  exact List.filterMap_congr fun t _ => hf t

/-! ### What the steps do -/

namespace UpdateStep

theorem holds_insertData {triples : List TriplePattern} (h : ∀ q ∈ triples, Sparql.Named q)
    (g : Graph) (u : Triple) :
    Graph.holds ((insertData triples).apply "" g) u =
      (g.holds u || (triples.filterMap TriplePattern.triple?).any u.same) := by
  have happly : (insertData triples).apply "" g =
      g.insertAll (dataTriples "" triples) := rfl
  rw [happly, holds_insertAll, dataTriples_of_named h]

theorem holds_deleteData {triples : List TriplePattern} (h : ∀ q ∈ triples, Sparql.Named q)
    (g : Graph) (u : Triple) :
    Graph.holds ((deleteData triples).apply "" g) u =
      (g.holds u && !(triples.filterMap TriplePattern.triple?).any (·.same u)) := by
  have happly : (deleteData triples).apply "" g = g.eraseAll (dataTriples "" triples) := rfl
  rw [happly, holds_eraseAll, dataTriples_of_named h]

theorem templateTriples_nil (place : String) (solutions : List Solution) :
    templateTriples place [] solutions = [] := by
  rw [templateTriples_of_named (by simp)]
  simp

/-- The triples of a filter, in the form in which a template finds them. -/
theorem filterMap_if (g : Graph) (p : Triple → Bool) :
    (g.filterMap fun t => if p t then some t else none) = g.filter p := by
  induction g with
  | nil => rfl
  | cons t g ih =>
      by_cases hp : p t <;> simp [hp, ih]

theorem any_same_filterMap_if (g : Graph) (t u : Triple) :
    (g.filterMap fun v => if t.same v then some t else none).any (·.same u) =
      (g.holds t && t.same u) := by
  rw [Bool.eq_iff_iff, Bool.and_eq_true, holds_iff, List.any_eq_true]
  constructor
  · rintro ⟨w, hw, hu⟩
    obtain ⟨v, hv, hif⟩ := List.mem_filterMap.mp hw
    obtain ⟨htv, hw⟩ := Option.ite_none_right_eq_some.mp hif
    obtain rfl := Option.some.inj hw
    exact ⟨⟨v, hv, htv⟩, hu⟩
  · rintro ⟨⟨v, hv, htv⟩, hu⟩
    exact ⟨t, List.mem_filterMap.mpr ⟨v, hv, if_pos htv⟩, hu⟩

/-- What is moved from one object to another is what the graph holds of the first. -/
theorem any_same_filterMap_moved (g : Graph) (old new : String) (u : Triple) :
    (g.filterMap fun t => if (Term.iri old).same t.object then
      some { t with object := .iri new } else none).any u.same =
      ((Term.iri new).same u.object && g.holds { u with object := .iri old }) := by
  rw [Bool.eq_iff_iff, Bool.and_eq_true, holds_iff, List.any_eq_true]
  constructor
  · rintro ⟨w, hw, huw⟩
    obtain ⟨v, hv, hif⟩ := List.mem_filterMap.mp hw
    obtain ⟨hobject, hw⟩ := Option.ite_none_right_eq_some.mp hif
    obtain rfl := Option.some.inj hw
    simp only [Triple.same, Bool.and_eq_true] at huw ⊢
    exact ⟨Term.same_comm u.object _ ▸ huw.2, v, hv, huw.1, hobject⟩
  · rintro ⟨hobject, v, hv, huv⟩
    simp only [Triple.same, Bool.and_eq_true] at huv
    refine ⟨_, List.mem_filterMap.mpr ⟨v, hv, if_pos huv.2⟩, ?_⟩
    simp only [Triple.same, Bool.and_eq_true]
    exact ⟨huv.1, Term.same_comm u.object _ ▸ hobject⟩

/-- Where one triple is removed if it is there, it is not there afterwards. -/
theorem holds_removeGround (hs : Ground s) (hp : Ground p) (ho : Ground o) (g : Graph)
    (u : Triple) :
    Graph.holds ((modify [.plain s p o] [] (.bgp [.plain s p o])).apply "" g) u =
      (g.holds u && !(⟨s, p, o⟩ : Triple).same u) := by
  have hremoved := templateTriples_single (r := .plain s p o)
    (.plain hs.noBlank hp.noBlank ho.noBlank)
    (f := fun t => if (⟨s, p, o⟩ : Triple).same t then some ⟨s, p, o⟩ else none)
    (fun t => by rw [matchTriple_ground hs hp ho]; split <;> simp [instance_ground hs hp ho]) "" g
  have happly : (modify [.plain s p o] [] (.bgp [.plain s p o])).apply "" g =
      (g.eraseAll (templateTriples "" [.plain s p o]
        ((Algebra.bgp [.plain s p o]).solutions g))).insertAll
        (templateTriples "" [] ((Algebra.bgp [.plain s p o]).solutions g)) := rfl
  rw [happly, hremoved, templateTriples_nil, holds_insertAll, holds_eraseAll,
    any_same_filterMap_if]
  by_cases hu : (⟨s, p, o⟩ : Triple).same u
  · rw [holds_congr g hu]
    cases g.holds u <;> simp
  · simp [hu]

/-- All triples with a given subject are removed. -/
theorem holds_deleteSubject (a : String) {b c : String} (hbc : b ≠ c) (g : Graph) (u : Triple) :
    Graph.holds ((deleteWhere [.plain (.iri a) (.var b) (.var c)]).apply "" g) u =
      (g.holds u && !(Term.iri a).same u.subject) := by
  have hremoved := templateTriples_single (r := .plain (.iri a) (.var b) (.var c))
    (.plain (Ground.iri a).noBlank (noBlank_var b) (noBlank_var c))
    (f := fun t => if (Term.iri a).same t.subject then some t else none)
    (fun t => by
      rw [matchTriple_subject (.iri a) hbc]
      split
      · next h =>
          rw [Option.bind_some, instance_subject (.iri a) hbc, ← Term.iri_same_iff.mp h]
      · rfl) "" g
  have happly : (deleteWhere [.plain (.iri a) (.var b) (.var c)]).apply "" g =
      g.eraseAll (templateTriples "" [.plain (.iri a) (.var b) (.var c)]
        ((Algebra.bgp [.plain (.iri a) (.var b) (.var c)]).solutions g)) := rfl
  rw [happly, hremoved, filterMap_if]
  refine holds_eraseAll_filter g (fun {t u} h => ?_) u
  simp only [Triple.same, Bool.and_eq_true] at h
  exact Term.same_iri_congr h.1.1 a

/-- All triples with a given object are removed. -/
theorem holds_deleteObject (o : String) {a b : String} (hab : a ≠ b) (g : Graph) (u : Triple) :
    Graph.holds ((deleteWhere [.plain (.var a) (.var b) (.iri o)]).apply "" g) u =
      (g.holds u && !(Term.iri o).same u.object) := by
  have hremoved := templateTriples_single (r := .plain (.var a) (.var b) (.iri o))
    (.plain (noBlank_var a) (noBlank_var b) (Ground.iri o).noBlank)
    (f := fun t => if (Term.iri o).same t.object then some t else none)
    (fun t => by
      rw [matchTriple_object (.iri o) hab]
      split
      · next h =>
          rw [Option.bind_some, instance_object (.iri o) hab, ← Term.iri_same_iff.mp h]
      · rfl) "" g
  have happly : (deleteWhere [.plain (.var a) (.var b) (.iri o)]).apply "" g =
      g.eraseAll (templateTriples "" [.plain (.var a) (.var b) (.iri o)]
        ((Algebra.bgp [.plain (.var a) (.var b) (.iri o)]).solutions g)) := rfl
  rw [happly, hremoved, filterMap_if]
  refine holds_eraseAll_filter g (fun {t u} h => ?_) u
  simp only [Triple.same, Bool.and_eq_true] at h
  exact Term.same_iri_congr h.2 o

/-- Every reference to one IRI becomes a reference to another. -/
theorem holds_exchangeObject (old new : String) {a b : String} (hab : a ≠ b) (g : Graph)
    (u : Triple) :
    Graph.holds ((modify [.plain (.var a) (.var b) (.iri old)]
        [.plain (.var a) (.var b) (.iri new)]
        (.bgp [.plain (.var a) (.var b) (.iri old)])).apply "" g) u =
      (g.holds u && !(Term.iri old).same u.object ||
        (Term.iri new).same u.object && g.holds { u with object := .iri old }) := by
  have hnamed : ∀ o, Sparql.Named (.plain (.var a) (.var b) (.iri o)) := fun o =>
    .plain (noBlank_var a) (noBlank_var b) (Ground.iri o).noBlank
  have hremoved := templateTriples_single (r := .plain (.var a) (.var b) (.iri old)) (hnamed old)
    (f := fun t => if (Term.iri old).same t.object then some t else none)
    (fun t => by
      rw [matchTriple_object (.iri old) hab]
      split
      · next h =>
          rw [Option.bind_some, instance_object (.iri old) hab, ← Term.iri_same_iff.mp h]
      · rfl) "" g
  have hadded := templateTriples_single (r := .plain (.var a) (.var b) (.iri old)) (hnamed new)
    (f := fun t => if (Term.iri old).same t.object then some { t with object := .iri new }
      else none)
    (fun t => by
      rw [matchTriple_object (.iri old) hab]
      split
      · rw [Option.bind_some, instance_object (.iri new) hab]
      · rfl) "" g
  have happly : (modify [.plain (.var a) (.var b) (.iri old)]
      [.plain (.var a) (.var b) (.iri new)]
      (.bgp [.plain (.var a) (.var b) (.iri old)])).apply "" g =
      (g.eraseAll (templateTriples "" [.plain (.var a) (.var b) (.iri old)]
        ((Algebra.bgp [.plain (.var a) (.var b) (.iri old)]).solutions g))).insertAll
      (templateTriples "" [.plain (.var a) (.var b) (.iri new)]
        ((Algebra.bgp [.plain (.var a) (.var b) (.iri old)]).solutions g)) := rfl
  have hrespects : ∀ {t u : Triple}, t.same u = true →
      (Term.iri old).same t.object = (Term.iri old).same u.object := by
    intro t u h
    simp only [Triple.same, Bool.and_eq_true] at h
    exact Term.same_iri_congr h.2 old
  rw [happly, hremoved, hadded, holds_insertAll, filterMap_if, holds_eraseAll_filter g hrespects,
    any_same_filterMap_moved]

end UpdateStep

/-! ### Whole updates -/

namespace Update

/-- The steps of an update in order, where no step makes new nodes. -/
def applyAll (steps : Update) (g : Graph) : Graph :=
  steps.foldl (fun g step => step.apply "" g) g

theorem applyAll_cons (step : UpdateStep) (steps : Update) (g : Graph) :
    applyAll (step :: steps) g = steps.applyAll (step.apply "" g) := rfl

@[simp] theorem applyAll_singleton (step : UpdateStep) (g : Graph) :
    applyAll [step] g = step.apply "" g := rfl

/-- Steps that do to the triples of every graph what a function does.  What they add is honest. -/
structure Carries (steps : Update) (f : Graph → Graph) : Prop where
  named : ∀ step ∈ steps, step.Named
  honest : ∀ step ∈ steps, step.Honest
  same : ∀ {g h : Graph}, g.Same h → Graph.Same (steps.applyAll g) (f h)

theorem Carries.append {steps others : Update} {f f' : Graph → Graph} (h : Carries steps f)
    (hothers : Carries others f') : Carries (steps ++ others) (f' ∘ f) where
  named step hstep := by
    rcases List.mem_append.mp hstep with hstep | hstep
    · exact h.named step hstep
    · exact hothers.named step hstep
  honest step hstep := by
    rcases List.mem_append.mp hstep with hstep | hstep
    · exact h.honest step hstep
    · exact hothers.honest step hstep
  same {g k} hgk := by
    have hall : applyAll (steps ++ others) g = others.applyAll (steps.applyAll g) :=
      List.foldl_append
    rw [hall]
    exact hothers.same (h.same hgk)

theorem Carries.congr {steps : Update} {f f' : Graph → Graph} (h : Carries steps f)
    (hf : ∀ g, Graph.Same (f g) (f' g)) : Carries steps f' where
  named := h.named
  honest := h.honest
  same {_ k} hgk := (h.same hgk).trans (hf k)

theorem run_of_named {steps : Update} (h : ∀ step ∈ steps, step.Named) (serial : Nat)
    (g : Graph) : steps.run serial g = steps.applyAll g := by
  have hfrom : ∀ (steps : Update) (first : Nat) (g : Graph), (∀ step ∈ steps, step.Named) →
      (steps.zipIdx first).foldl (fun g entry =>
        entry.1.apply ("@" ++ toString serial ++ "." ++ toString entry.2) g) g =
          steps.applyAll g := by
    intro steps
    induction steps with
    | nil => exact fun first g _ => rfl
    | cons step steps ih =>
        intro first g h
        have hfirst := UpdateStep.apply_of_named (h step List.mem_cons_self)
        simp only [List.zipIdx_cons, List.foldl_cons, hfirst]
        exact ih (first + 1) _ fun other hother => h other (List.mem_cons_of_mem _ hother)
  exact hfrom steps 0 g h

theorem Carries.run {steps : Update} {f : Graph → Graph} (h : Carries steps f) (serial : Nat)
    (g : Graph) : Graph.Same (steps.run serial g) (f g) := by
  rw [run_of_named h.named]
  exact h.same (.refl g)

end Update

end Sparql

end EntityMapping
