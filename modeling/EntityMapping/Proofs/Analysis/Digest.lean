import EntityMapping.Proofs.Analysis.Links
import Mathlib.Algebra.BigOperators.Group.List.Basic

/-!
All that the analysis learns from a pattern.

Of a tree of patterns it matters whether the walk goes through it, which triples it has outside and
inside its optional parts, and which variables occur in optional parts side by side.  Trees that
stand next to each other are put together by a commutative operation, since the numbers under which
the walk enters optional parts only tell these apart.
-/

namespace EntityMapping

open Sparql (TriplePattern)

/-- Whether a triple has the variable as its subject or object. -/
def Sparql.TriplePattern.Mentions (t : TriplePattern) (name : String) : Prop :=
  t.subject = .var name ∨ t.object = .var name

/-- What the analysis learns from a tree. -/
@[ext] structure Digest where
  /-- The walk goes through the tree. -/
  IsReadable : Prop
  /-- The tree has the triple, inside an optional part or outside all of them. -/
  Has : TriplePattern → (isOptional : Bool) → Prop
  /-- The variable occurs in two optional parts, neither of which is inside the other. -/
  Apart : String → Prop

namespace Digest

variable {d e : Digest} {t : TriplePattern} {isOptional : Bool} {name : String}

/-- Whether the variable occurs outside all optional parts. -/
def Outside (d : Digest) (name : String) : Prop :=
  ∃ t : TriplePattern, t.Mentions name ∧ d.Has t false

/-- Whether the variable occurs in an optional part. -/
def Inside (d : Digest) (name : String) : Prop :=
  ∃ t : TriplePattern, t.Mentions name ∧ d.Has t true

/-- Nothing is learned from an empty group. -/
instance : Zero Digest :=
  ⟨⟨True, fun _ _ => False, fun _ => False⟩⟩

/-- What is learned from two trees next to each other.  The optional parts of one lie beside those
of the other. -/
instance : Add Digest :=
  ⟨fun d e => {
    IsReadable := d.IsReadable ∧ e.IsReadable
    Has := fun t isOptional => d.Has t isOptional ∨ e.Has t isOptional
    Apart := fun name => d.Apart name ∨ e.Apart name ∨ (d.Inside name ∧ e.Inside name) }⟩

@[simp] theorem isReadable_zero : (0 : Digest).IsReadable ↔ True := Iff.rfl

@[simp] theorem has_zero : (0 : Digest).Has t isOptional ↔ False := Iff.rfl

@[simp] theorem apart_zero : (0 : Digest).Apart name ↔ False := Iff.rfl

@[simp] theorem isReadable_add : (d + e).IsReadable ↔ d.IsReadable ∧ e.IsReadable := Iff.rfl

@[simp] theorem has_add : (d + e).Has t isOptional ↔ d.Has t isOptional ∨ e.Has t isOptional :=
  Iff.rfl

@[simp] theorem apart_add :
    (d + e).Apart name ↔ d.Apart name ∨ e.Apart name ∨ (d.Inside name ∧ e.Inside name) :=
  Iff.rfl

@[simp] theorem outside_zero : (0 : Digest).Outside name ↔ False := by
  simp [Outside]

@[simp] theorem outside_add : (d + e).Outside name ↔ d.Outside name ∨ e.Outside name := by
  simp only [Outside, has_add, and_or_left, exists_or]

@[simp] theorem inside_zero : (0 : Digest).Inside name ↔ False := by
  simp [Inside]

@[simp] theorem inside_add : (d + e).Inside name ↔ d.Inside name ∨ e.Inside name := by
  simp only [Inside, has_add, and_or_left, exists_or]

instance : AddCommMonoid Digest where
  add_assoc d e f := by
    ext <;> simp only [isReadable_add, has_add, apart_add, inside_add] <;> tauto
  zero_add d := by ext <;> simp
  add_zero d := by ext <;> simp
  add_comm d e := by
    ext <;> simp only [isReadable_add, has_add, apart_add] <;> tauto
  nsmul := nsmulRec

/-- What is learned from a triple: its predicate has to be an IRI. -/
def ofTriple (t : TriplePattern) : Digest where
  IsReadable := ∃ p, t.predicate = .step (.iri p)
  Has u isOptional := u = t ∧ isOptional = false
  Apart _ := False

/-- What is learned from an optional part. -/
def enclosed (d : Digest) : Digest where
  IsReadable := d.IsReadable
  Has t isOptional := isOptional = true ∧ ∃ any, d.Has t any
  Apart := d.Apart

/-- What is learned from a tree that the walk stops at. -/
def refused (d : Digest) : Digest :=
  { d with IsReadable := False }

@[simp] theorem outside_ofTriple : (ofTriple t).Outside name ↔ t.Mentions name := by
  simp [Outside, ofTriple]

@[simp] theorem inside_ofTriple : (ofTriple t).Inside name ↔ False := by
  simp [Inside, ofTriple]

@[simp] theorem apart_ofTriple : (ofTriple t).Apart name ↔ False := Iff.rfl

@[simp] theorem outside_enclosed : d.enclosed.Outside name ↔ False := by
  simp [Outside, enclosed]

@[simp] theorem inside_enclosed : d.enclosed.Inside name ↔ d.Outside name ∨ d.Inside name := by
  simp only [Inside, Outside, enclosed, Bool.exists_bool, true_and, and_or_left, exists_or]

end Digest

namespace Pattern

mutual

/-- What the analysis learns from a tree. -/
def digest : Pattern → Digest
  | .basic ts => (ts.map Digest.ofTriple).sum
  | .group children => digestOfAll children
  | .optional child => child.digest.enclosed
  | .union branches => (digestOfAll branches).refused
  | .unsupported _ => Digest.refused 0
  | .foreign _ => Digest.refused 0

/-- What it learns from several trees next to each other. -/
def digestOfAll : List Pattern → Digest
  | [] => 0
  | p :: rest => p.digest + digestOfAll rest

end

theorem digestOfAll_eq (ps : List Pattern) : digestOfAll ps = (ps.map digest).sum := by
  induction ps with
  | nil => rfl
  | cons p ps ih => rw [digestOfAll, ih, List.map_cons, List.sum_cons]

end Pattern

/-! ### The walk goes through what is readable -/

namespace Visit

/-- The result of a walk as the digest has it: what cannot be read is refused as unsupported. -/
def Judges {α : Type} (d : Digest) : Except MappingError α → Prop
  | .ok _ => d.IsReadable
  | .error e => ¬ d.IsReadable ∧ e.kind = some .unsupportedPattern

variable {α β : Type} {d e : Digest} {context : List Nat}

/-- One walk after another. -/
theorem Judges.bind {x : Except MappingError α} {f : α → Except MappingError β}
    (hx : Judges d x) (hf : ∀ a, Judges e (f a)) : Judges (d + e) (x >>= f) := by
  cases x with
  | error cause => exact ⟨fun hreadable => hx.1 hreadable.1, hx.2⟩
  | ok a =>
      change Judges (d + e) (f a)
      have hrest := hf a
      generalize f a = y at hrest ⊢
      cases y with
      | error cause => exact ⟨fun hreadable => hrest.1 hreadable.2, hrest.2⟩
      | ok b => exact ⟨hx, hrest⟩

/-- What is made of the result of a walk does not matter. -/
theorem Judges.map {x : Except MappingError α} (hx : Judges d x) (f : α → β) :
    Judges d (x >>= fun a => pure (f a)) := by
  cases x with
  | error cause => exact hx
  | ok a => exact hx

theorem judges_ofTriple (t : TriplePattern) : Judges (.ofTriple t) (ofTriple context t) := by
  unfold ofTriple
  split
  · next p hpredicate => exact ⟨p, hpredicate⟩
  · next name hpredicate =>
      exact ⟨fun ⟨p, hp⟩ => by simp [hpredicate] at hp, rfl⟩
  · next hother _ => exact ⟨fun ⟨p, hp⟩ => hother p hp, rfl⟩

theorem judges_mapM (ts : List TriplePattern) :
    Judges (ts.map Digest.ofTriple).sum (ts.mapM (ofTriple context)) := by
  induction ts with
  | nil => exact trivial
  | cons t ts ih =>
      rw [List.mapM_cons, List.map_cons, List.sum_cons]
      exact (judges_ofTriple t).bind fun v => ih.map (v :: ·)

mutual

/-- The walk goes through exactly the trees that can be read. -/
theorem judges_ofPattern (p : Pattern) (next : Nat) (context : List Nat) :
    Judges p.digest (ofPattern context next p) := by
  match p with
  | .basic ts => exact (judges_mapM ts).map fun visits => (visits, next)
  | .group children => exact judges_ofPatterns children next context
  | .optional child => exact judges_ofPattern child (next + 1) (context ++ [next])
  | .union branches => exact ⟨id, rfl⟩
  | .unsupported element => exact ⟨id, rfl⟩
  | .foreign text => exact ⟨id, rfl⟩

/-- The same for several trees in order. -/
theorem judges_ofPatterns (ps : List Pattern) (next : Nat) (context : List Nat) :
    Judges (Pattern.digestOfAll ps) (ofPatterns context next ps) := by
  match ps with
  | [] => exact trivial
  | p :: rest =>
      exact (judges_ofPattern p next context).bind fun out =>
        (judges_ofPatterns rest out.2 context).map fun others => (out.1 ++ others.1, others.2)

end

theorem judges_all (p : Pattern) : Judges p.digest (all p) := by
  have hwalk := judges_ofPattern p 0 []
  unfold all
  generalize ofPattern [] 0 p = result at hwalk ⊢
  cases result with
  | error cause => exact hwalk
  | ok out => exact hwalk

/-! ### The visits of a walk show the digest -/

/-- Contexts that lie side by side are those of which neither is a prefix of the other. -/
theorem areSiblings_iff {a b : List Nat} :
    Analysis.areSiblings a b = true ↔ ¬ a <+: b ∧ ¬ b <+: a := by
  simp [Analysis.areSiblings, ← List.isPrefixOf_iff_prefix]

theorem areSiblings_comm (a b : List Nat) :
    Analysis.areSiblings a b = Analysis.areSiblings b a :=
  Bool.and_comm _ _

/-- What the visits of a walk inside the optional parts of `context`, which entered those numbered
from `low` up to `high`, show of the tree. -/
structure Shows (context : List Nat) (low high : Nat) (d : Digest) (visits : List Visit) :
    Prop where
  le : low ≤ high
  numbered : ∀ v ∈ visits, v.context ≠ context →
    ∃ n rest, low ≤ n ∧ n < high ∧ v.context = context ++ n :: rest
  has : ∀ t isOptional, d.Has t isOptional ↔
    ∃ v ∈ visits, v.pattern = t ∧ (isOptional = true ↔ v.context ≠ context)
  apart : ∀ name, d.Apart name ↔
    ∃ v ∈ visits, ∃ w ∈ visits, v.pattern.Mentions name ∧ w.pattern.Mentions name ∧
      Analysis.areSiblings v.context w.context = true

variable {low middle high : Nat} {visits more : List Visit} {name : String}

theorem Shows.inside (h : Shows context low high d visits) : d.Inside name ↔
    ∃ v ∈ visits, v.pattern.Mentions name ∧ v.context ≠ context := by
  simp only [Digest.Inside, h.has, true_iff]
  constructor
  · rintro ⟨_, hmentions, v, hv, rfl, hcontext⟩
    exact ⟨v, hv, hmentions, hcontext⟩
  · rintro ⟨v, hv, hmentions, hcontext⟩
    exact ⟨_, hmentions, v, hv, rfl, hcontext⟩

/-- Optional parts that are entered one after the other lie side by side. -/
theorem siblings_of_lt {m n : Nat} {rest others : List Nat} (hlt : m < n) :
    Analysis.areSiblings (context ++ m :: rest) (context ++ n :: others) = true := by
  rw [areSiblings_iff, List.prefix_append_right_inj, List.prefix_append_right_inj,
    List.cons_prefix_cons, List.cons_prefix_cons]
  exact ⟨fun h => Nat.ne_of_lt hlt h.1, fun h => Nat.ne_of_gt hlt h.1⟩

theorem Shows.below (h : Shows context low high d visits) {v : Visit} (hv : v ∈ visits) :
    context <+: v.context := by
  by_cases hcontext : v.context = context
  · exact hcontext ▸ List.prefix_refl _
  · obtain ⟨n, rest, -, -, hinside⟩ := h.numbered v hv hcontext
    exact hinside ▸ List.prefix_append _ _

/-- Visits of two walks one after the other lie side by side exactly if both are in optional
parts. -/
theorem Shows.siblings_iff (h : Shows context low middle d visits)
    (hmore : Shows context middle high e more) {v w : Visit} (hv : v ∈ visits) (hw : w ∈ more) :
    Analysis.areSiblings v.context w.context = true ↔
      v.context ≠ context ∧ w.context ≠ context := by
  constructor
  · intro hsiblings
    obtain ⟨hleft, hright⟩ := areSiblings_iff.mp hsiblings
    exact ⟨fun heq => hleft (heq ▸ hmore.below hw), fun heq => hright (heq ▸ h.below hv)⟩
  · rintro ⟨hleft, hright⟩
    obtain ⟨m, rest, -, hm, hinside⟩ := h.numbered v hv hleft
    obtain ⟨n, others, hn, -, hother⟩ := hmore.numbered w hw hright
    rw [hinside, hother]
    exact siblings_of_lt (Nat.lt_of_lt_of_le hm hn)

theorem Shows.append (h : Shows context low middle d visits)
    (hmore : Shows context middle high e more) :
    Shows context low high (d + e) (visits ++ more) where
  le := Nat.le_trans h.le hmore.le
  numbered v hv hcontext := by
    rcases List.mem_append.mp hv with hv | hv
    · obtain ⟨n, rest, hlow, hhigh, hinside⟩ := h.numbered v hv hcontext
      exact ⟨n, rest, hlow, Nat.lt_of_lt_of_le hhigh hmore.le, hinside⟩
    · obtain ⟨n, rest, hlow, hhigh, hinside⟩ := hmore.numbered v hv hcontext
      exact ⟨n, rest, Nat.le_trans h.le hlow, hhigh, hinside⟩
  has t isOptional := by
    simp only [Digest.has_add, h.has, hmore.has, List.mem_append, or_and_right, exists_or]
  apart name := by
    rw [Digest.apart_add, h.apart, hmore.apart, h.inside, hmore.inside]
    constructor
    · rintro (⟨v, hv, w, hw, hfacts⟩ | ⟨v, hv, w, hw, hfacts⟩ |
        ⟨⟨v, hv, hmentions, hcontext⟩, w, hw, hothers, hother⟩)
      · exact ⟨v, List.mem_append_left _ hv, w, List.mem_append_left _ hw, hfacts⟩
      · exact ⟨v, List.mem_append_right _ hv, w, List.mem_append_right _ hw, hfacts⟩
      · exact ⟨v, List.mem_append_left _ hv, w, List.mem_append_right _ hw, hmentions, hothers,
          (h.siblings_iff hmore hv hw).mpr ⟨hcontext, hother⟩⟩
    · rintro ⟨v, hv, w, hw, hmentions, hothers, hsiblings⟩
      rcases List.mem_append.mp hv with hv | hv <;> rcases List.mem_append.mp hw with hw | hw
      · exact Or.inl ⟨v, hv, w, hw, hmentions, hothers, hsiblings⟩
      · obtain ⟨hcontext, hother⟩ := (h.siblings_iff hmore hv hw).mp hsiblings
        exact Or.inr (Or.inr ⟨⟨v, hv, hmentions, hcontext⟩, w, hw, hothers, hother⟩)
      · rw [areSiblings_comm] at hsiblings
        obtain ⟨hcontext, hother⟩ := (h.siblings_iff hmore hw hv).mp hsiblings
        exact Or.inr (Or.inr ⟨⟨w, hw, hothers, hcontext⟩, v, hv, hmentions, hother⟩)
      · exact Or.inr (Or.inl ⟨v, hv, w, hw, hmentions, hothers, hsiblings⟩)

/-- Seen from outside, all of an optional part is inside it. -/
theorem Shows.enclosed {next : Nat}
    (h : Shows (context ++ [next]) (next + 1) high d visits) :
    Shows context next high d.enclosed visits := by
  have hinside : ∀ v ∈ visits, ∃ rest, v.context = context ++ next :: rest := by
    intro v hv
    obtain ⟨rest, hrest⟩ := h.below hv
    exact ⟨rest, by rw [← hrest, List.append_assoc]; rfl⟩
  have hdeeper : ∀ v ∈ visits, v.context ≠ context := by
    intro v hv heq
    obtain ⟨rest, hrest⟩ := hinside v hv
    have hlength := congrArg List.length (heq.symm.trans hrest)
    simp at hlength
  constructor
  · exact Nat.le_of_succ_le h.le
  · intro v hv _
    obtain ⟨rest, hrest⟩ := hinside v hv
    exact ⟨next, rest, Nat.le_refl _, h.le, hrest⟩
  · intro t isOptional
    constructor
    · rintro ⟨rfl, any, hany⟩
      obtain ⟨v, hv, hpattern, -⟩ := (h.has t any).mp hany
      exact ⟨v, hv, hpattern, by simp [hdeeper v hv]⟩
    · rintro ⟨v, hv, hpattern, hoptional⟩
      refine ⟨hoptional.mpr (hdeeper v hv), decide (v.context ≠ context ++ [next]), ?_⟩
      exact (h.has t _).mpr ⟨v, hv, hpattern, by simp⟩
  · exact h.apart

theorem shows_nothing (context : List Nat) (next : Nat) : Shows context next next 0 [] where
  le := Nat.le_refl next
  numbered v hv := absurd hv List.not_mem_nil
  has t isOptional := by simp
  apart name := by simp

theorem shows_ofTriple {t : TriplePattern} {v : Visit} (h : ofTriple context t = .ok v)
    (next : Nat) : Shows context next next (.ofTriple t) [v] := by
  obtain ⟨rfl, rfl⟩ := ofTriple_ok h
  constructor
  · exact Nat.le_refl next
  · intro w hw hcontext
    exact absurd (congrArg Visit.context (List.mem_singleton.mp hw)) hcontext
  · intro t isOptional
    simp [Digest.ofTriple, eq_comm]
  · intro name
    simp [Digest.ofTriple, areSiblings_iff]

theorem shows_mapM {ts : List TriplePattern} (h : ts.mapM (ofTriple context) = .ok visits)
    (next : Nat) : Shows context next next (ts.map Digest.ofTriple).sum visits := by
  replace h := forall₂_of_mapM h
  induction h with
  | nil => exact shows_nothing context next
  | cons hv _ ih => exact (shows_ofTriple hv next).append ih

mutual

/-- Along the tree: the visits of a walk show what its digest says. -/
theorem shows_ofPattern {context : List Nat} {next after : Nat} {p : Pattern}
    {visits : List Visit} (h : ofPattern context next p = .ok (visits, after)) :
    Shows context next after p.digest visits := by
  match p, h with
  | .basic ts, h =>
      obtain ⟨found, hfound, h⟩ := bind_eq_ok.mp h
      cases pure_eq_ok.mp h
      exact shows_mapM hfound next
  | .group children, h => exact shows_ofPatterns h
  | .optional child, h =>
      have hchild : ofPattern (context ++ [next]) (next + 1) child = .ok (visits, after) := h
      exact (shows_ofPattern hchild).enclosed

/-- The same for several trees in order. -/
theorem shows_ofPatterns {context : List Nat} {next after : Nat} {ps : List Pattern}
    {visits : List Visit} (h : ofPatterns context next ps = .ok (visits, after)) :
    Shows context next after (Pattern.digestOfAll ps) visits := by
  match ps, h with
  | [], h =>
      cases Except.ok.inj h
      exact shows_nothing context next
  | p :: rest, h =>
      obtain ⟨⟨found, _⟩, hfound, h⟩ := bind_eq_ok.mp h
      obtain ⟨⟨others, _⟩, hothers, h⟩ := bind_eq_ok.mp h
      cases pure_eq_ok.mp h
      exact (shows_ofPattern hfound).append (shows_ofPatterns hothers)

end

theorem exists_shows_of_all {p : Pattern} (h : all p = .ok visits) :
    ∃ after, Shows [] 0 after p.digest visits := by
  obtain ⟨after, hwalk⟩ := all_ok h
  exact ⟨after, shows_ofPattern hwalk⟩

end Visit

/-! ### What the analysis finds is in the digest -/

namespace Visit.Shows

variable {low high : Nat} {d : Digest} {visits : List Visit} (h : Shows [] low high d visits)
  {name predicate : String} {link : Dependency}

include h

theorem mem_dependencies :
    link ∈ Visit.dependencies visits ↔ d.Has link.pattern link.isOptional := by
  rw [Visit.dependencies, List.mem_eraseDups, List.mem_filterMap, h.has]
  constructor
  · rintro ⟨v, hv, hlink⟩
    obtain ⟨hpattern, hoptional⟩ := Dependency.of_dependency? hlink
    exact ⟨v, hv, hpattern, by simp [hoptional]⟩
  · rintro ⟨⟨context, subject, predicate, object⟩, hv, hpattern, hoptional⟩
    obtain ⟨rfl, hpredicate, rfl⟩ := TriplePattern.mk.inj hpattern
    obtain rfl := Term.iri.inj (Sparql.Path.step.inj hpredicate)
    refine ⟨_, hv, ?_⟩
    have hsame : link.isOptional = !context.isEmpty := by
      rw [Bool.eq_iff_iff, hoptional]
      simp
    simp [dependency?, ← hsame]

theorem mem_rangesOf : predicate ∈ Analysis.rangesOf visits name ↔
    ∃ subject isOptional, d.Has (.plain subject (.iri predicate) (.var name)) isOptional := by
  simp only [Analysis.rangesOf, List.mem_eraseDups, List.mem_map, List.mem_filter, hasObject,
    beq_iff_eq, h.has]
  constructor
  · rintro ⟨v, ⟨hv, hobject⟩, rfl⟩
    exact ⟨v.subject, decide (v.context ≠ []), v, hv, by rw [pattern, hobject], by simp⟩
  · rintro ⟨subject, isOptional, v, hv, hpattern, -⟩
    obtain ⟨-, hpredicate, hobject⟩ := TriplePattern.mk.inj hpattern
    exact ⟨v, ⟨hv, hobject⟩, Term.iri.inj (Sparql.Path.step.inj hpredicate)⟩

theorem any_hasSubject : visits.any (hasSubject name) = true ↔
    ∃ t isOptional, d.Has t isOptional ∧ t.subject = .var name := by
  simp only [List.any_eq_true, hasSubject, beq_iff_eq, h.has]
  constructor
  · rintro ⟨v, hv, hsubject⟩
    exact ⟨v.pattern, decide (v.context ≠ []), ⟨v, hv, rfl, by simp⟩, hsubject⟩
  · rintro ⟨_, isOptional, ⟨v, hv, rfl, -⟩, hsubject⟩
    exact ⟨v, hv, hsubject⟩

omit h in
theorem mem_contextsOf {context : List Nat} : context ∈ Analysis.contextsOf visits name ↔
    ∃ v ∈ visits, v.pattern.Mentions name ∧ v.context = context := by
  simp only [Analysis.contextsOf, List.mem_map, List.mem_filter, and_assoc]
  refine exists_congr fun v => and_congr_right fun _ => and_congr_left fun _ => ?_
  simp [mentions, hasSubject, hasObject, TriplePattern.Mentions, pattern, TriplePattern.plain]

theorem isNullable_iff : Analysis.isNullable visits name = true ↔ ¬ d.Outside name := by
  rw [Analysis.isNullable, Bool.not_eq_true', ← Bool.not_eq_true, List.contains_iff_mem,
    mem_contextsOf, not_iff_not]
  simp only [Digest.Outside, h.has]
  constructor
  · rintro ⟨v, hv, hmentions, hcontext⟩
    exact ⟨v.pattern, hmentions, v, hv, rfl, by simp [hcontext]⟩
  · rintro ⟨_, hmentions, v, hv, rfl, hcontext⟩
    exact ⟨v, hv, hmentions, by simpa using hcontext⟩

theorem hasSiblings_iff :
    Analysis.hasSiblings (Analysis.contextsOf visits name) = true ↔ d.Apart name := by
  simp only [Analysis.hasSiblings, List.any_eq_true, mem_contextsOf, h.apart]
  constructor
  · rintro ⟨_, ⟨v, hv, hmentions, rfl⟩, _, ⟨w, hw, hothers, rfl⟩, hsiblings⟩
    exact ⟨v, hv, w, hw, hmentions, hothers, hsiblings⟩
  · rintro ⟨v, hv, w, hw, hmentions, hothers, hsiblings⟩
    exact ⟨_, ⟨v, hv, hmentions, rfl⟩, _, ⟨w, hw, hothers, rfl⟩, hsiblings⟩

/-- A variable is ambiguous if it occurs in optional parts side by side and nowhere outside. -/
theorem isAmbiguous_iff :
    Analysis.isAmbiguous visits name = true ↔ ¬ d.Outside name ∧ d.Apart name := by
  rw [Analysis.isAmbiguous, Bool.and_eq_true, h.isNullable_iff, h.hasSiblings_iff]

end Visit.Shows

namespace Analysis

/-- The ambiguous variables are those that are described, that occur in optional parts only, and
that occur in two of them side by side. -/
theorem mem_ambiguous {q : SelectQuery} {anchor : String} {hints : SchemaHints} {a : Analysis}
    (h : derive q anchor hints = .ok a) {name : String} :
    name ∈ a.ambiguous ↔ name ∈ a.described.map Prod.fst ∧
      ¬ q.pattern.digest.Outside name ∧ q.pattern.digest.Apart name := by
  rw [EntityType.names_derive h]
  unfold derive at h
  rw [guard_eq_ok] at h
  obtain ⟨-, h⟩ := h
  obtain ⟨visits, hvisits, h⟩ := bind_eq_ok.mp h
  obtain ⟨described, -, h⟩ := bind_eq_ok.mp h
  obtain rfl := pure_eq_ok.mp h
  obtain ⟨_, hshows⟩ := Visit.exists_shows_of_all hvisits
  rw [List.mem_filter, hshows.isAmbiguous_iff]

end Analysis

end EntityMapping
