import EntityMapping.Change
import EntityMapping.Proofs.Entity.Type

/-!
Which changes have an update.

A change is written by binding terms to the slots of a template, and a slot takes an IRI that passes
the check, or a literal.  What a change writes anew is told apart from all else that it mentions: the
entity, the predicate, the value that is there already, and where a redirection goes.
-/

namespace EntityMapping

/-- A text that is accepted as an IRI. -/
def AcceptedIri (s : String) : Prop :=
  checkIri s = .ok (.iri s)

theorem checkIri_ok {s : String} {t : Term} (h : checkIri s = .ok t) :
    t = .iri s ∧ AcceptedIri s := by
  have hterm : t = .iri s := by
    unfold checkIri at h
    split at h
    · contradiction
    · exact (Except.ok.inj h).symm
  subst hterm
  exact ⟨rfl, h⟩

theorem accepted_iff {s : String} :
    AcceptedIri s ↔ s.isEmpty = false ∧ s.toList.any isIriBreaker = false := by
  rw [← Bool.or_eq_false_iff, AcceptedIri, checkIri]
  cases s.isEmpty || s.toList.any isIriBreaker <;> simp

instance (s : String) : Decidable (AcceptedIri s) :=
  decidable_of_iff _ accepted_iff.symm

/-- A term that slots take. -/
def Term.Bindable : Term → Prop
  | .iri s => AcceptedIri s
  | .literal _ => True
  | .blank _ | .var _ => False

instance : (t : Term) → Decidable t.Bindable
  | .iri s => inferInstanceAs (Decidable (AcceptedIri s))
  | .literal _ => inferInstanceAs (Decidable True)
  | .blank _ => inferInstanceAs (Decidable False)
  | .var _ => inferInstanceAs (Decidable False)

theorem exists_bind_ok {ε α β : Type} {x : Except ε α} {f : α → Except ε β} :
    (∃ b, (x >>= f) = .ok b) ↔ ∃ a, x = .ok a ∧ ∃ b, f a = .ok b := by
  constructor
  · rintro ⟨b, h⟩
    obtain ⟨a, ha, hb⟩ := bind_eq_ok.mp h
    exact ⟨a, ha, b, hb⟩
  · rintro ⟨a, ha, b, hb⟩
    exact ⟨b, bind_eq_ok.mpr ⟨a, ha, hb⟩⟩

/-- A list is mapped exactly if each of its elements is. -/
theorem exists_mapM_ok {ε α β : Type} {f : α → Except ε β} {as : List α} :
    (∃ bs, as.mapM f = .ok bs) ↔ ∀ a ∈ as, ∃ b, f a = .ok b := by
  induction as with
  | nil => simp [List.mapM_nil, pure_eq_ok]
  | cons a as ih =>
      rw [List.mapM_cons, exists_bind_ok, List.forall_mem_cons, ← ih]
      simp only [exists_bind_ok, pure_eq_ok, exists_eq', and_true]
      exact exists_and_right

namespace Template

theorem exists_setIri {t : Template} {name s : String} :
    (∃ after, t.setIri name s = .ok after) ↔ AcceptedIri s := by
  rw [setIri, exists_bind_ok]
  simp only [pure_eq_ok, exists_eq', and_true]
  constructor
  · rintro ⟨term, hterm⟩
    exact (checkIri_ok hterm).2
  · exact fun h => ⟨_, h⟩

theorem exists_setTerm {t : Template} {name : String} {v : Term} :
    (∃ after, t.setTerm name v = .ok after) ↔ v.Bindable := by
  rw [setTerm, setParam, exists_bind_ok]
  simp only [pure_eq_ok, exists_eq', and_true]
  cases v with
  | iri s => exact ⟨fun ⟨_, h⟩ => (checkIri_ok h).2, fun h => ⟨_, h⟩⟩
  | literal l => exact ⟨fun _ => trivial, fun _ => ⟨_, rfl⟩⟩
  | blank label => exact ⟨fun ⟨_, h⟩ => (nomatch h), False.elim⟩
  | var other => exact ⟨fun ⟨_, h⟩ => (nomatch h), False.elim⟩

end Template

namespace Change

/-- What a change mentions beside the value that it writes can be bound. -/
def Founded : Change → Prop
  | .add uri predicate _ => AcceptedIri uri ∧ AcceptedIri predicate
  | .remove uri predicate old => AcceptedIri uri ∧ AcceptedIri predicate ∧ old.Bindable
  | .replace uri predicate old _ => AcceptedIri uri ∧ AcceptedIri predicate ∧ old.Bindable
  | .create _ _ => True
  | .delete uri => AcceptedIri uri
  | .redirect oldUri newUri => AcceptedIri oldUri ∧ AcceptedIri newUri

/-- The value that a change writes, if it writes one, can be bound. -/
def Writes : Change → Prop
  | .add _ _ new => new.Bindable
  | .replace _ _ _ new => new.Bindable
  | _ => True

theorem exists_update_iff {c : Change} : (∃ text, c.update = .ok text) ↔ c.Founded ∧ c.Writes := by
  cases c <;>
    simp only [update, exists_bind_ok, pure_eq_ok, exists_eq', and_true, exists_and_right,
      Template.exists_setIri, Template.exists_setTerm, Founded, Writes, Except.ok.injEq, and_assoc]

/-- Several changes have a common update exactly if each of them has one. -/
theorem exists_combine_iff {changes : List Change} :
    (∃ text, combine changes = .ok text) ↔ ∀ c ∈ changes, c.Founded ∧ c.Writes := by
  simp only [combine, exists_bind_ok, pure_eq_ok, exists_eq', and_true, exists_mapM_ok,
    exists_update_iff]

end Change

end EntityMapping
