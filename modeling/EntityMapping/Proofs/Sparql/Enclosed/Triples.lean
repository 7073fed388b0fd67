import EntityMapping.Proofs.Sparql.Enclosed
import EntityMapping.Proofs.Sparql.Relabelling
import Mathlib.Data.List.Basic

/-!
Terms, paths and triples in front of a closing brace.
-/

namespace EntityMapping

namespace Sparql

namespace Enclosure

variable {F : Enclosure} {α : Type}

instance (t : Token) : Decidable t.IsBrace :=
  inferInstanceAs (Decidable (_ ∨ _))

/-- Parsers with fuel agree wherever there is enough of it: so much for each token that may be there,
and so much at least. -/
def AgreeFrom (F : Enclosure) (step level : Nat) (change : α → α) (p : Nat → Parser α)
    (fuel : Nat) : Prop :=
  ∀ n fuel', step * n + level ≤ fuel → step * n + level ≤ fuel' →
    F.Agree n 1 change (p fuel) (p fuel')

namespace AgreeFrom

variable {step level fuel : Nat} {φ : α → α} {p : Nat → Parser α}

theorem zero : F.AgreeFrom step (level + 1) φ p 0 := fun n fuel' h => by
  exact absurd h (Nat.not_succ_le_zero _)

theorem succ (h : ∀ n fuel', step * n + level ≤ fuel → step * n + level ≤ fuel' →
    F.Agree n 1 φ (p (fuel + 1)) (p (fuel' + 1))) :
    F.AgreeFrom step (level + 1) φ p (fuel + 1) := by
  intro n fuel' hfuel hfuel'
  cases fuel' with
  | zero => exact absurd hfuel' (Nat.not_succ_le_zero _)
  | succ fuel' => exact h n fuel' (Nat.le_of_succ_le_succ hfuel) (Nat.le_of_succ_le_succ hfuel')

end AgreeFrom

end Enclosure

namespace Grammar

open Sparql.Parser Sparql.Enclosure

variable {F : Enclosure} {env : Prologue} {n : Nat}

/-! ### Terms -/

theorem iri_agree : F.Agree n 1 id (iri env) (iri env) :=
  .satisfy (by rintro t (rfl | rfl) <;> rfl) fun _ _ _ _ => rfl

theorem var_agree : F.Agree n 1 id var var :=
  .satisfy (by rintro t (rfl | rfl) <;> rfl) fun _ _ _ _ => rfl

theorem text_agree : F.Agree n 1 id text text :=
  .satisfy (by rintro t (rfl | rfl) <;> rfl) fun _ _ _ _ => rfl

theorem literal_agree : F.Agree n 1 id (literal env) (literal env) := by
  have htag : F.Agree (n - 1) 1 id tag tag :=
    .satisfy (by rintro t (rfl | rfl) <;> rfl) fun _ _ _ _ => rfl
  have hnumber : F.Agree n 1 id number number :=
    .satisfy (by rintro t (rfl | rfl) <;> rfl) fun _ _ _ _ => rfl
  have htext : F.Agree n 1 id (textLiteral env) (textLiteral env) :=
    .bind text_agree fun _ s => .orElse (.lax (.bind htag fun _ _ => .pure rfl))
      (.orElse (.lax (.bind (.sign (by decide)) fun _ _ => .after iri_agree.lax fun _ => .pure rfl))
        (.pure rfl))
  exact .orElse htext (.orElse hnumber
    (.orElse (.bind (.keyword _) fun _ _ => .pure rfl) (.bind (.keyword _) fun _ _ => .pure rfl)))

theorem freshBlank_agree : F.Agree n 0 (Term.relabel F.rename) freshBlank freshBlank :=
  .after .remaining fun place => .pure (congrArg Term.blank (F.anonymous place).symm)

theorem blank_agree : F.Agree n 1 (Term.relabel F.rename) blank blank := by
  refine .orElse (.satisfy (by rintro t (rfl | rfl) <;> rfl) fun t node ht hnode => ?_)
    (.bind (.sign (by decide)) fun _ _ => .after (.lax (.sign (by decide))) fun _ =>
      freshBlank_agree)
  cases t with
  | blank label =>
      obtain rfl := Option.some.inj hnode
      exact congrArg Term.blank (F.written label ht)
  | _ => contradiction

theorem graphTerm_agree :
    F.Agree n 1 (Term.relabel F.rename) (graphTerm env) (graphTerm env) :=
  .orElse (.bind iri_agree fun _ _ => .pure rfl) (.orElse (.bind literal_agree fun _ _ => .pure rfl)
    (.orElse blank_agree (.bind (.sign (by decide)) fun _ _ =>
      .after (.lax (.sign (by decide))) fun _ => .pure rfl)))

theorem varOrTerm_agree :
    F.Agree n 1 (Term.relabel F.rename) (varOrTerm env) (varOrTerm env) :=
  .orElse (.bind var_agree fun _ _ => .pure rfl) graphTerm_agree

theorem varOrIri_agree : F.Agree n 1 id (varOrIri env) (varOrIri env) :=
  .orElse (.bind var_agree fun _ _ => .pure rfl) (.bind iri_agree fun _ _ => .pure rfl)

/-! ### Paths -/

theorem pathIri_agree : F.Agree n 1 id (pathIri env) (pathIri env) := by
  refine .bind (.orElse iri_agree (.satisfy ?_ fun _ _ _ _ => rfl)) fun _ _ => .pure rfl
  rintro t (rfl | rfl) <;> rfl

theorem pathSet_agree : F.Agree n 1 id (pathSet env) (pathSet env) := by
  have hstep : ∀ n, F.Agree n 1 id (pathInSet env) (pathInSet env) := fun n =>
    .orElse (.bind (.sign (by decide)) fun _ _ => .after pathIri_agree.lax fun _ => .pure rfl)
      pathIri_agree
  refine .orElse (.bind (hstep n) fun _ _ => .pure rfl)
    (.between (by decide) (by decide) fun _ => .lax (.separated_id (by decide) (hstep (n - 1))))

theorem pathMark_agree : F.Agree n 1 id pathMark pathMark :=
  .orElse (.bind (.sign (by decide)) fun _ _ => .pure rfl)
    (.orElse (.bind (.sign (by decide)) fun _ _ => .pure rfl)
      (.bind (.sign (by decide)) fun _ _ => .pure rfl))

/-- All parsers of paths, with fuel. -/
structure PathsAgree (F : Enclosure) (env : Prologue) (fuel : Nat) : Prop where
  path : F.AgreeFrom 5 5 id (pathWithin env) fuel
  sequence : F.AgreeFrom 5 4 id (pathSequenceWithin env) fuel
  element : F.AgreeFrom 5 3 id (pathElementWithin env) fuel
  repeated : F.AgreeFrom 5 2 id (pathRepeatedWithin env) fuel
  primary : F.AgreeFrom 5 1 id (pathPrimaryWithin env) fuel

theorem paths_agree (fuel : Nat) : PathsAgree F env fuel := by
  induction fuel with
  | zero => exact ⟨.zero, .zero, .zero, .zero, .zero⟩
  | succ fuel ih =>
      refine ⟨.succ fun n m hn hm => ?_, .succ fun n m hn hm => ?_, .succ fun n m hn hm => ?_,
        .succ fun n m hn hm => ?_, .succ fun n m hn hm => ?_⟩
      · rw [pathWithin, pathWithin]
        exact .bind (.separated_id (by decide) (ih.sequence n m hn hm)) fun _ _ => .pure rfl
      · rw [pathSequenceWithin, pathSequenceWithin]
        exact .bind (.separated_id (by decide) (ih.element n m hn hm)) fun _ _ => .pure rfl
      · rw [pathElementWithin, pathElementWithin]
        exact .orElse (.bind (.sign (by decide)) fun _ _ =>
          .after ((ih.repeated n m hn hm).mono (Nat.sub_le n 1)).lax fun _ => .pure rfl)
          (ih.repeated n m hn hm)
      · rw [pathRepeatedWithin, pathRepeatedWithin]
        refine .bind (ih.primary n m hn hm) fun _ p => .after (.optionally_id pathMark_agree) ?_
        rintro (_ | mark) <;> exact .pure rfl
      · rw [pathPrimaryWithin, pathPrimaryWithin]
        exact .orElse pathIri_agree (.orElse
          (.bind (.sign (by decide)) fun _ _ => .after pathSet_agree.lax fun _ => .pure rfl)
          (.between (by decide) (by decide) fun _ => (ih.path (n - 1) m (by omega) (by omega)).lax))

theorem pathOrVar_agree : F.Agree n 1 id (pathOrVar env) (pathOrVar env) :=
  .orElse (.supplied fun m _ => (paths_agree _).path m _ (by omega) (by omega))
    (.bind var_agree fun _ _ => .pure rfl)

/-! ### Triples -/

/-- All parsers of nodes, with fuel. -/
structure NodesAgree (F : Enclosure) (env : Prologue) (verb : Parser Path) (fuel : Nat) : Prop where
  node : F.AgreeFrom 5 2 (relabelNode F.rename) (nodeWithin env verb) fuel
  rich : F.AgreeFrom 5 1 (relabelNode F.rename) (richNodeWithin env verb) fuel
  properties : ∀ n fuel' subject, 5 * n + 2 ≤ fuel → 5 * n + 2 ≤ fuel' →
    F.Agree n 1 (List.map (·.relabel F.rename)) (propertiesWithin env verb fuel subject)
      (propertiesWithin env verb fuel' (subject.relabel F.rename))
  property : ∀ n fuel' subject, 5 * n + 1 ≤ fuel → 5 * n + 1 ≤ fuel' →
    F.Agree n 1 (List.map (·.relabel F.rename)) (propertyWithin env verb fuel subject)
      (propertyWithin env verb fuel' (subject.relabel F.rename))

theorem nodes_agree {verb : Parser Path} (hverb : ∀ n, F.Agree n 1 id verb verb) (fuel : Nat) :
    NodesAgree F env verb fuel := by
  induction fuel with
  | zero => exact ⟨.zero, .zero, fun _ _ _ h => absurd h (Nat.not_succ_le_zero _),
      fun _ _ _ h => absurd h (Nat.not_succ_le_zero _)⟩
  | succ fuel ih =>
      refine ⟨.succ fun n m hn hm => ?_, .succ fun n m hn hm => ?_, ?_, ?_⟩
      · rw [nodeWithin, nodeWithin]
        exact .orElse (.bind varOrTerm_agree fun _ _ => .pure rfl) (ih.rich n m hn hm)
      · rw [richNodeWithin, richNodeWithin]
        refine .orElse (.after .remaining fun place => .bind (.between (by decide) (by decide)
          fun _ => .lax (.atLeastOne (ih.node (n - 1) m (by omega) (by omega))))
          fun _ nodes => ?_) (.after freshBlank_agree fun node => .bind
            (.between (by decide) (by decide) fun _ =>
              .lax (ih.properties (n - 1) m node (by omega) (by omega)))
            fun _ triples => .pure rfl)
        have hitems : (nodes.map (relabelNode F.rename)).map Prod.fst =
            (nodes.map Prod.fst).map (·.relabel F.rename) := by
          simp [relabelNode]
        rw [hitems, collectionLinks_relabel (F.item place)]
        refine .pure ?_
        simp [relabelNode, List.map_flatMap, List.flatMap_map]
      · intro n m subject hn hm
        cases m with
        | zero => omega
        | succ m =>
            rw [propertiesWithin, propertiesWithin]
            refine .bind (ih.property n m subject (by omega) (by omega)) fun _ first => .after
              (.many (.bind (.sign (by decide)) fun _ _ => .optionally
                (ih.property (n - 1 - 1) m subject (by omega) (by omega))))
              fun others => .pure ?_
            rw [List.map_append, List.map_flatMap, List.flatMap_map]
            refine congrArg _ (List.flatMap_congr fun triples _ => ?_)
            cases triples <;> rfl
      · intro n m subject hn hm
        cases m with
        | zero => omega
        | succ m =>
            rw [propertyWithin, propertyWithin]
            refine .bind (hverb n) fun _ predicate => .after (.lax (.separated (by decide)
              (ih.node (n - 1) m (by omega) (by omega)))) fun nodes => .pure ?_
            rw [List.map_flatMap, List.flatMap_map]
            rfl

theorem triplesBlock_agree {verb : Parser Path} (hverb : ∀ n, F.Agree n 1 id verb verb) :
    F.Agree n 1 (List.map (·.relabel F.rename)) (triplesBlock env verb) (triplesBlock env verb) := by
  have hsubject : ∀ n, F.Agree n 1 (List.map (·.relabel F.rename)) (triplesOfSubject env verb)
      (triplesOfSubject env verb) := by
    intro n
    refine .supplied fun m _ => .orElse (.bind varOrTerm_agree fun _ subject => .lax
      ((nodes_agree hverb _).properties (m - 1) _ subject (by omega) (by omega)))
      (.bind ((nodes_agree hverb _).rich m _ (by omega) (by omega)) fun _ found => ?_)
    refine .after (.optionally ((nodes_agree hverb _).properties (m - 1) _ found.1 (by omega) (by omega))) fun others => .pure ?_
    cases others <;> simp
  refine .bind (hsubject n) fun _ first => .after (.many (.bind (.sign (by decide)) fun _ _ =>
    (hsubject _).lax)) fun others => .after (.optionally (.sign (by decide))) fun _ => .pure ?_
  simp [List.map_flatten]

end Grammar

end Sparql

end EntityMapping
