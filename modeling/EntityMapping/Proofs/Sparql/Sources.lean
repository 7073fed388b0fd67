import EntityMapping.Proofs.Term.Honest
import EntityMapping.Sparql.Update

/-!
What updates write into a graph is read from their texts.

So a graph whose literals stand for what their texts say stays one.
-/

namespace EntityMapping

/-- A term that is an honest literal if it is a literal. -/
def Term.Honest (t : Term) : Prop :=
  ∀ l, t = .literal l → l.Honest

/-- A graph whose literals are honest. -/
def Graph.Honest (g : Graph) : Prop :=
  ∀ u ∈ g, u.object.Honest

theorem Term.honest_iri (s : String) : (Term.iri s).Honest := fun _ h => nomatch h

namespace Graph

variable {g : Graph} {ts : List Triple}

theorem Honest.eraseAll (h : g.Honest) (ts : List Triple) : Graph.Honest (g.eraseAll ts) := by
  induction ts generalizing g with
  | nil => exact h
  | cons t ts ih => exact ih fun u hu => h u (List.mem_of_mem_filter hu)

theorem Honest.insertAll (h : g.Honest) (hts : ∀ t ∈ ts, t.object.Honest) :
    Graph.Honest (g.insertAll ts) := by
  induction ts generalizing g with
  | nil => exact h
  | cons t ts ih =>
      obtain ⟨ht, hrest⟩ := List.forall_mem_cons.mp hts
      refine ih (fun u hu => ?_) hrest
      unfold insert at hu
      split at hu
      · exact h u hu
      · rcases List.mem_append.mp hu with hu | hu
        · exact h u hu
        · exact List.mem_singleton.mp hu ▸ ht

end Graph

namespace Sparql

variable {g : Graph}

theorem renameBlank_honest {t : Term} (h : t.Honest) (rename : String → String) :
    (renameBlank rename t).Honest := by
  cases t with
  | blank label => exact fun _ h => nomatch h
  | _ => exact h

namespace UpdateStep

/-- A step that adds honest literals only; templates add the terms that stand in them. -/
def Honest : UpdateStep → Prop
  | .insertData triples => ∀ q ∈ triples, q.object.Honest
  | .modify _ added _ => ∀ q ∈ added, q.object.Honest ∧ ∀ name, q.object ≠ .var name
  | _ => True

theorem object_of_triple {q : TriplePattern} {t : Triple} (h : q.triple? = some t) :
    t.object = q.object := by
  unfold TriplePattern.triple? at h
  split at h
  · exact congrArg Triple.object (Option.some.inj h).symm
  · contradiction

theorem dataTriples_honest {triples : List TriplePattern} (h : ∀ q ∈ triples, q.object.Honest)
    (place : String) : ∀ t ∈ dataTriples place triples, t.object.Honest := by
  intro t ht
  obtain ⟨u, hu, rfl⟩ := List.mem_map.mp ht
  obtain ⟨q, hq, hqu⟩ := List.mem_filterMap.mp hu
  exact renameBlank_honest (object_of_triple hqu ▸ h q hq) _

theorem templateTriples_honest {triples : List TriplePattern}
    (h : ∀ q ∈ triples, q.object.Honest ∧ ∀ name, q.object ≠ .var name) (place : String)
    (solutions : List Solution) :
    ∀ t ∈ templateTriples place triples solutions, t.object.Honest := by
  intro t ht
  obtain ⟨⟨σ, index⟩, -, ht⟩ := List.mem_flatMap.mp ht
  obtain ⟨q, hq, hqt⟩ := List.mem_filterMap.mp ht
  obtain ⟨u, hu, hinstance⟩ := Option.bind_eq_some_iff.mp hqt
  obtain ⟨hhonest, hvar⟩ := h q hq
  simp only [TriplePattern.instance?, TriplePattern.triple?, Option.bind_eq_bind, Option.bind_some,
    Option.bind_eq_some_iff] at hinstance
  obtain ⟨s, -, p, -, o, ho, ht⟩ := hinstance
  obtain rfl := Option.some.inj ht
  -- The term in the template is no variable, so it is placed as it is.
  have hobject : o = renameBlank (fun label => label ++ place ++ "." ++ toString index)
      q.object := by
    simp only [Triple.renameBlanks, object_of_triple hu] at ho
    cases hq : q.object with
    | var name => exact absurd hq (hvar name)
    | _ =>
        rw [hq] at ho
        exact (Option.some.inj ho).symm
  exact hobject ▸ renameBlank_honest hhonest _

theorem Honest.apply {step : UpdateStep} (h : step.Honest) (hg : g.Honest) (place : String) :
    Graph.Honest (step.apply place g) := by
  refine (hg.eraseAll _).insertAll ?_
  cases step with
  | insertData triples => exact dataTriples_honest h place
  | modify removed added pattern => exact templateTriples_honest h place _
  | _ => exact fun t ht => absurd ht List.not_mem_nil

end UpdateStep

/-- Whatever the nodes are called that an update makes, it leaves a graph honest. -/
theorem Update.run_honest {steps : Update} (h : ∀ step ∈ steps, step.Honest) (hg : g.Honest)
    (serial : Nat) : Graph.Honest (steps.run serial g) := by
  have hfrom : ∀ (steps : Update) (first : Nat) (g : Graph), (∀ step ∈ steps, step.Honest) →
      g.Honest → Graph.Honest ((steps.zipIdx first).foldl (fun g entry =>
        entry.1.apply ("@" ++ toString serial ++ "." ++ toString entry.2) g) g) := by
    intro steps
    induction steps with
    | nil => exact fun _ _ _ hg => hg
    | cons step steps ih =>
        intro first g h hg
        obtain ⟨hstep, hrest⟩ := List.forall_mem_cons.mp h
        exact ih (first + 1) _ hrest (hstep.apply hg _)
  exact hfrom steps 0 g h hg

end Sparql

end EntityMapping
