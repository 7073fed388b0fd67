import EntityMapping.Term.N3

/-!
Graphs: finite sets of triples.

A graph is kept as a list without repetitions, in the order in which its triples arrived.  Triples
are the same when their terms are.
-/

namespace EntityMapping

/-- Subject, predicate and object. -/
structure Triple where
  subject : Term
  predicate : Term
  object : Term
  deriving DecidableEq, Repr

namespace Triple

/-- Whether two triples are the same, term by term. -/
def same (t u : Triple) : Bool :=
  t.subject.same u.subject && t.predicate.same u.predicate && t.object.same u.object

@[simp] theorem same_refl (t : Triple) : t.same t = true := by
  simp [same]

theorem same_comm (t u : Triple) : t.same u = u.same t := by
  simp only [same, Term.same_comm t.subject, Term.same_comm t.predicate, Term.same_comm t.object]

theorem same_trans {t u v : Triple} (htu : t.same u = true) (huv : u.same v = true) :
    t.same v = true := by
  simp only [same, Bool.and_eq_true] at *
  exact ⟨⟨Term.same_trans htu.1.1 huv.1.1, Term.same_trans htu.1.2 huv.1.2⟩,
    Term.same_trans htu.2 huv.2⟩

/-- The written form of a triple: its terms between single spaces. -/
def n3 (t : Triple) : String :=
  t.subject.n3 ++ " " ++ t.predicate.n3 ++ " " ++ t.object.n3

end Triple

/-- A set of triples. -/
abbrev Graph := List Triple

namespace Graph

/-- Whether the graph holds a triple. -/
def holds (g : Graph) (t : Triple) : Bool :=
  g.any t.same

/-- The graph with a triple in it. -/
def insert (g : Graph) (t : Triple) : Graph :=
  if g.holds t then g else g ++ [t]

/-- The graph without a triple. -/
def erase (g : Graph) (t : Triple) : Graph :=
  g.filter fun u => !t.same u

/-- The graph with all triples of a list in it. -/
def insertAll (g : Graph) (ts : List Triple) : Graph :=
  ts.foldl insert g

/-- The graph without the triples of a list. -/
def eraseAll (g : Graph) (ts : List Triple) : Graph :=
  ts.foldl erase g

/-- The triples that agree with the terms asked for. -/
def matching (g : Graph) (subject predicate object : Option Term) : List Triple :=
  g.filter fun t =>
    subject.all t.subject.same && predicate.all t.predicate.same && object.all t.object.same

/-- The objects that the graph holds for a subject and a predicate. -/
def objects (g : Graph) (subject predicate : Term) : List Term :=
  (g.matching (some subject) (some predicate) none).map Triple.object

theorem holds_insert (g : Graph) (t u : Triple) :
    (g.insert t).holds u = (g.holds u || u.same t) := by
  unfold insert
  split
  · next h =>
    by_cases hu : u.same t
    · have : g.holds u = true := by
        obtain ⟨v, hv, htv⟩ := List.any_eq_true.1 h
        exact List.any_eq_true.2 ⟨v, hv, Triple.same_trans hu htv⟩
      simp [this]
    · simp [hu]
  · simp [holds, List.any_append]

theorem holds_erase (g : Graph) (t u : Triple) :
    (g.erase t).holds u = (g.holds u && !t.same u) := by
  by_cases htu : t.same u
  · have h : (g.erase t).holds u = false := by
      refine List.any_eq_false.2 fun v hv => ?_
      have hv' := (List.mem_filter.1 hv).2
      intro huv
      simp [Triple.same_trans htu huv] at hv'
    simp [h, htu]
  · simp only [Bool.not_eq_true] at htu
    simp only [htu, Bool.not_false, Bool.and_true]
    unfold holds erase
    rw [Bool.eq_iff_iff, List.any_eq_true, List.any_eq_true]
    constructor
    · rintro ⟨v, hv, huv⟩
      exact ⟨v, (List.mem_filter.1 hv).1, huv⟩
    · rintro ⟨v, hv, huv⟩
      refine ⟨v, List.mem_filter.2 ⟨hv, ?_⟩, huv⟩
      rw [Bool.not_eq_true', Bool.eq_false_iff]
      intro htv
      rw [Triple.same_trans htv (by rw [Triple.same_comm]; exact huv)] at htu
      exact Bool.noConfusion htu

end Graph

end EntityMapping
