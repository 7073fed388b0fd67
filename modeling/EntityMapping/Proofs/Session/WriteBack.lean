import EntityMapping.Proofs.Change.Edit
import EntityMapping.Proofs.Session.Writing

/-!
Reading a value and writing it again.

A value that is read from a stored literal is written as a literal that is stored, so the entity
keeps what it has.  The change that is recorded puts a triple in the place of itself, or adds one
that is there.
-/

namespace EntityMapping

/-! ### Graphs -/

namespace Graph

theorem insert_same_of_holds {g : Graph} {u : Triple} (h : g.holds u = true) :
    (g.insert u).Same g := by
  intro v
  rw [holds_insert]
  cases hv : v.same u with
  | true => rw [holds_congr g hv, h, Bool.or_true]
  | false => rw [Bool.or_false]

/-- What is taken away and put back was never gone. -/
theorem insert_erase_same {g : Graph} {u : Triple} (h : g.holds u = true) :
    ((g.erase u).insert u).Same g := by
  intro v
  rw [holds_insert, holds_erase, Triple.same_comm u v]
  cases hv : v.same u with
  | true => rw [holds_congr g hv, h, Bool.or_true]
  | false => simp

end Graph

namespace Change

/-- A change that is carried out by a store without an effect on its triples if the graph holds a
triple already. -/
def Keeps (c : Change) (u : Triple) : Prop :=
  ∀ m : MemoryStore, m.graph.holds u = true →
    ∃ text after, c.update = .ok text ∧ m.apply text = .ok after ∧ after.graph.Same m.graph

variable {uri predicate : String} {t : Term}

theorem keeps_add (huri : ValidIri uri) (hpredicate : ValidIri predicate) (ht : t.Writable) :
    (add uri predicate t).Keeps (.stating uri predicate t) := by
  intro m hholds
  have hbase : m.prologue.base = none := rfl
  obtain ⟨text, htext, hperforms⟩ := does_add hbase huri hpredicate ht
  obtain ⟨after, hafter, hsame, -⟩ := m.apply_of_performs hperforms
  exact ⟨text, after, htext, hafter, hsame.trans (Graph.insert_same_of_holds hholds)⟩

theorem keeps_replace (huri : ValidIri uri) (hpredicate : ValidIri predicate) (ht : t.Writable) :
    (replace uri predicate t t).Keeps (.stating uri predicate t) := by
  intro m hholds
  have hbase : m.prologue.base = none := rfl
  obtain ⟨text, htext, hperforms⟩ := does_replace hbase huri hpredicate ht ht
  obtain ⟨after, hafter, hsame, -⟩ := m.apply_of_performs hperforms
  exact ⟨text, after, htext, hafter, hsame.trans (Graph.insert_erase_same hholds)⟩

end Change

theorem Term.insertInto_of_mem {t : Term} {ts : List Term} (h : t ∈ ts) : t.insertInto ts = ts :=
  if_pos (memberOf_iff.mpr ⟨t, h, same_refl t⟩)

namespace Session

variable {σ : Type} {s : Session σ} {id : EntityId} {e : Entity} {name predicate : String}
  {p : Property} {t : Term} {ts : List Term}

/-! ### Reading -/

section Reading

variable [GraphStore σ]

/-- Literals are read without a look at the store. -/
theorem decodeAll_literal (s : Session σ) (hkind : p.kind = .literal) (ts : List Term) :
    s.decodeAll p ts = (.ok (ts.map Value.ofTerm), s) := by
  induction ts with
  | nil => rfl
  | cons t ts ih =>
      simp only [decodeAll, decode, hkind, ih]
      rfl

theorem get_literal (he : s.entity? id = some e) (hp : e.type.property name = .ok p)
    (hkind : p.kind = .literal) :
    s.get id name = (.ok (shown p ((e.values.terms name).map Value.ofTerm)), s) := by
  simp only [get, he, hp, decodeAll_literal s hkind]
  rfl

end Reading

/-! ### Writing -/

/-- A write after which an entity has what it had, with one change recorded. -/
def Rewrites (s : Session σ) (id : EntityId) (e : Entity) (c : Change) (after : Session σ) :
    Prop :=
  ∃ written : Entity, s.Writes id written c after ∧ written.committed = e.committed ∧
    ∀ other, written.values.property other = e.values.property other

theorem Writes.rewrites {state : PropertyState} (hstate : e.values.property name = state)
    {c : Change} {after : Session σ} (h : s.Writes id (e.holding name state) c after) :
    s.Rewrites id e c after := by
  subst hstate
  exact ⟨_, h, rfl, e.property_holding_self name⟩

theorem set_ofTerm (he : s.entity? id = some e) (hw : e.Writable name p predicate)
    (hkind : p.kind = .literal) (hone : p.isFunctional = true) {l : Literal}
    (hstate : e.values.property name = .single (some (.literal l))) (hnumber : l.Comparable) :
    ∃ after, s.set id name (.ofTerm (.literal l)) = .ok after ∧
      s.Rewrites id e (.replace e.uri predicate (.literal l) (.literal l)) after := by
  have hold : (e.values.terms name).head? = some (.literal l) := by
    rw [EntityState.terms, hstate]
    rfl
  have hsome : Value.ofTerm (.literal l) ≠ .nothing := by
    rcases Value.ofTerm_literal l with ⟨d, -, hvalue⟩ | ⟨-, hvalue⟩ <;> simp [hvalue]
  obtain ⟨t, ht, hterm⟩ :=
    Property.termFor_ofTerm (p := p) hkind (List.mem_singleton_self (Term.literal l)) hnumber
  obtain rfl := List.mem_singleton.mp ht
  obtain ⟨after, hafter, hwrites⟩ := exists_set he (hw.set_another hone hold hsome hterm)
  exact ⟨after, hafter, hwrites.rewrites hstate⟩

theorem add_ofTerm (he : s.entity? id = some e) (hw : e.Writable name p predicate)
    (hkind : p.kind = .literal) (hmany : p.isFunctional = false)
    (hstate : e.values.property name = .several ts) {l : Literal} (hl : .literal l ∈ ts)
    (hnumber : l.Comparable) :
    ∃ t ∈ ts, ∃ after, s.add id name (.ofTerm (.literal l)) = .ok after ∧
      s.Rewrites id e (.add e.uri predicate t) after := by
  have hterms : e.values.terms name = ts := by
    rw [EntityState.terms, hstate]
    rfl
  obtain ⟨t, ht, hterm⟩ := Property.termFor_ofTerm (p := p) hkind hl hnumber
  have hadded := hw.add_eq hmany (hterms ▸ hterm)
  rw [hterms, Term.insertInto_of_mem ht] at hadded
  obtain ⟨after, hafter, hwrites⟩ := exists_add he hadded
  exact ⟨t, ht, after, hafter, hwrites.rewrites hstate⟩

/-- Writing back what was read leaves the entity as it was.  Where a property has one value, the
change that is recorded replaces the term by itself; where it has many, the change adds a term that
is stored.  Neither alters a graph that has the triple. -/
theorem write_back [GraphStore σ] (he : s.entity? id = some e)
    (hw : e.Writable name p predicate) (hkind : p.kind = .literal)
    (hliterals : ∀ t ∈ e.values.terms name, ∃ l : Literal, t = .literal l ∧ l.Comparable) :
    (p.isFunctional = true → ∀ t, e.values.property name = .single (some t) →
      s.get id name = (.ok (.single (.ofTerm t)), s) ∧
      (∃ after, s.set id name (.ofTerm t) = .ok after ∧
        s.Rewrites id e (.replace e.uri predicate t t) after) ∧
      (ValidIri e.uri → ValidIri predicate → t.Writable →
        (Change.replace e.uri predicate t t).Keeps (.stating e.uri predicate t))) ∧
    (p.isFunctional = false → ∀ ts, e.values.property name = .several ts →
      ∃ vs, s.get id name = (.ok (.several vs), s) ∧ ∀ v ∈ vs, ∃ t ∈ ts,
        (∃ after, s.add id name v = .ok after ∧
          s.Rewrites id e (.add e.uri predicate t) after) ∧
        (ValidIri e.uri → ValidIri predicate → t.Writable →
          (Change.add e.uri predicate t).Keeps (.stating e.uri predicate t))) := by
  constructor
  · intro hone t hstate
    have hterms : e.values.terms name = [t] := by
      rw [EntityState.terms, hstate]
      rfl
    obtain ⟨l, rfl, hnumber⟩ := hliterals t (hterms ▸ List.mem_singleton_self t)
    refine ⟨?_, set_ofTerm he hw hkind hone hstate hnumber,
      fun huri hpredicate ht => Change.keeps_replace huri hpredicate ht⟩
    rw [get_literal he hw.property hkind, hterms, shown, hone]
    rfl
  · intro hmany ts hstate
    have hterms : e.values.terms name = ts := by
      rw [EntityState.terms, hstate]
      rfl
    refine ⟨Value.distinct (ts.map Value.ofTerm), ?_, fun v hv => ?_⟩
    · rw [get_literal he hw.property hkind, hterms, shown, hmany]
      rfl
    · obtain ⟨read, hread, rfl⟩ := List.mem_map.mp (Value.mem_of_mem_distinct hv)
      obtain ⟨l, rfl, hnumber⟩ := hliterals read (hterms ▸ hread)
      obtain ⟨t, ht, hadded⟩ := add_ofTerm he hw hkind hmany hstate hread hnumber
      exact ⟨t, ht, hadded, fun huri hpredicate ht => Change.keeps_add huri hpredicate ht⟩

/-! A note with numbers of another datatype than a new one would get, a text in a language, and a
number that cannot be read. -/

open MemoryStore (noteType)

def shortThree : Literal :=
  .typed "3" (Xsd.base ++ "int")

def numberedNote : Entity :=
  .loaded noteType "http://e/n1"
    [("title", .single (some (.literal shortThree))),
      ("tag", .several [.literal (.tagged "a" "en"), .literal shortThree,
        .literal (.typed "x" Xsd.integer)])]

def numberedSession : Session MemoryStore :=
  { ofStore MemoryStore.empty (.ofSequence toString) 8 with entities := [numberedNote] }

theorem readsBack_shortThree : shortThree.ReadsBack := by
  have hexpanded : Sparql.Lexer.expanded shortThree.n3.toList =
      some "\"3\"^^<http://www.w3.org/2001/XMLSchema#int>".toList := rfl
  exact Literal.readsBack_of_no_tab hexpanded (by decide) rfl rfl rfl

theorem comparable_numberedNote {name : String} (hname : name = "title" ∨ name = "tag") :
    ∀ t ∈ numberedNote.values.terms name, ∃ l : Literal, t = .literal l ∧ l.Comparable := by
  have hnumber : ∀ l ∈ [shortThree, .tagged "a" "en", .typed "x" Xsd.integer],
      ∀ d, l.value = some d → d.isNaN = false := by decide
  intro t ht
  rcases hname with rfl | rfl
  · obtain rfl := List.mem_singleton.mp ht
    exact ⟨_, rfl, hnumber _ (by simp)⟩
  · rcases List.mem_cons.mp ht with rfl | ht
    · exact ⟨_, rfl, hnumber _ (by simp)⟩
    · rcases List.mem_cons.mp ht with rfl | ht
      · exact ⟨_, rfl, hnumber _ (by simp)⟩
      · obtain rfl := List.mem_singleton.mp ht
        exact ⟨_, rfl, hnumber _ (by simp)⟩

theorem write_back_numbered :
    (numberedSession.get 0 "title" = (.ok (.single (.datum (.integer 3))), numberedSession) ∧
      (∃ after, numberedSession.set 0 "title" (.datum (.integer 3)) = .ok after ∧
        numberedSession.Rewrites 0 numberedNote (.replace "http://e/n1" "http://e/title"
          (.literal shortThree) (.literal shortThree)) after) ∧
      (Change.replace "http://e/n1" "http://e/title" (.literal shortThree)
        (.literal shortThree)).Keeps
          (.stating "http://e/n1" "http://e/title" (.literal shortThree))) ∧
    ∃ vs, numberedSession.get 0 "tag" = (.ok (.several vs), numberedSession) ∧ ∀ v ∈ vs,
      ∃ t ∈ numberedNote.values.terms "tag",
        ∃ after, numberedSession.add 0 "tag" v = .ok after ∧
          numberedSession.Rewrites 0 numberedNote (.add "http://e/n1" "http://e/tag" t) after := by
  have htitle : numberedNote.Writable "title"
      ⟨"title", .literal, .one, some "http://e/title", "Literal"⟩ "http://e/title" :=
    ⟨rfl, rfl, rfl⟩
  have htag : numberedNote.Writable "tag"
      ⟨"tag", .literal, .many, some "http://e/tag", "Literal"⟩ "http://e/tag" :=
    ⟨rfl, rfl, rfl⟩
  have he : numberedSession.entity? 0 = some numberedNote := rfl
  obtain ⟨hone, -⟩ := write_back he htitle rfl (comparable_numberedNote (Or.inl rfl))
  obtain ⟨-, hmany⟩ := write_back he htag rfl (comparable_numberedNote (Or.inr rfl))
  obtain ⟨hget, hset, hkeeps⟩ := hone rfl _ rfl
  obtain ⟨vs, hvs, hadd⟩ := hmany rfl _ rfl
  refine ⟨⟨hget, hset, hkeeps (validIri_of_all rfl rfl) (validIri_of_all rfl rfl)
    readsBack_shortThree⟩, vs, hvs, fun v hv => ?_⟩
  obtain ⟨t, ht, hadded, -⟩ := hadd v hv
  exact ⟨t, ht, hadded⟩

end Session

end EntityMapping
