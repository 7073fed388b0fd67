import EntityMapping.Proofs.Filling
import EntityMapping.Proofs.Sparql.Effects
import EntityMapping.Proofs.Sparql.Phrases

/-!
The updates of changes: what is written for each kind of change, how it is read again, and what it
does to the triples of a graph.
-/

namespace EntityMapping

open Sparql (Algebra Ground Prologue TriplePattern Update UpdateStep)
open Sparql.Grammar (Naming Reading Reads ReadsStep)
open Sparql.Lexer (IsGap Spells)

/-! ### Bound templates -/

namespace Template

theorem setIri_of_valid {s : String} (h : ValidIri s) (t : Template) (name : String) :
    t.setIri name s = .ok (t.bind name (.iri s)) := by
  simp only [setIri, h.1]
  rfl

theorem setTerm_of_writable {v : Term} (h : v.Writable) (t : Template) (name : String) :
    t.setTerm name v = .ok (t.bind name v) := by
  cases v with
  | iri s =>
      simp only [setTerm, setParam, slotTerm, h.1]
      rfl
  | literal l => rfl
  | blank label => exact h.elim
  | var other => exact h.elim

theorem lookup_filter_ne {bindings : List (String × Term)} {name other : String}
    (h : other ≠ name) :
    (bindings.filter fun (n, _) => n != name).lookup other = bindings.lookup other := by
  induction bindings with
  | nil => rfl
  | cons entry bindings ih =>
      obtain ⟨n, t⟩ := entry
      by_cases hn : n = name
      · subst hn
        have hne : (other == n) = false := beq_false_of_ne h
        simp [List.lookup_cons, hne, ih]
      · simp [hn, List.lookup_cons, ih]

theorem lookup_bind (t : Template) (name other : String) (term : Term) :
    (t.bind name term).bindings.lookup other =
      if other = name then some term else t.bindings.lookup other := by
  by_cases h : other = name
  · simp [bind, h]
  · have hne : (other == name) = false := beq_false_of_ne h
    rw [if_neg h, bind, List.lookup_cons, hne]
    exact lookup_filter_ne h

end Template

namespace Piece

variable {bindings : List (String × Term)} {name : List Char}

theorem fill_bound {t : Term} (h : bindings.lookup (String.ofList name) = some t) :
    (slot '?' name).fill bindings = t.n3.toList := by
  simp only [fill, h]

end Piece

/-! ### Filled templates -/

namespace Change

open Sparql.Grammar (block)

section Templates

variable (bindings : List (String × Term))

/-- The text that takes the place of a slot. -/
def slotText (name : String) : List Char :=
  (Piece.slot '?' name.toList).fill bindings

@[simp] theorem slotText_nil (name : String) : slotText [] name = '?' :: name.toList := rfl

@[simp] theorem slotText_bind (t : Template) (name other : String) (v : Term) :
    slotText (t.bind name v).bindings other =
      if other = name then v.n3.toList else slotText t.bindings other := by
  by_cases h : other = name <;> simp [slotText, Piece.fill, Template.lookup_bind, h]

theorem filled_add : Piece.filled bindings addText.toList =
    "INSERT".toList ++ ' ' :: ("DATA".toList ++ ' ' ::
      block (slotText bindings "s") (slotText bindings "p") (slotText bindings "o")) := rfl

theorem filled_remove : Piece.filled bindings removeText.toList =
    "DELETE".toList ++ ' ' :: ("DATA".toList ++ ' ' ::
      block (slotText bindings "s") (slotText bindings "p") (slotText bindings "o")) := rfl

theorem filled_replace : Piece.filled bindings replaceText.toList =
    "DELETE".toList ++ ' ' ::
      (block (slotText bindings "s") (slotText bindings "p") (slotText bindings "o") ++ ' ' ::
        ("WHERE".toList ++ ' ' ::
          block (slotText bindings "s") (slotText bindings "p") (slotText bindings "o"))) ++
    separator.toList ++
    ("INSERT".toList ++ ' ' :: ("DATA".toList ++ ' ' ::
      block (slotText bindings "s") (slotText bindings "p") (slotText bindings "n"))) := by
  simp only [block, List.append_assoc, List.cons_append, List.nil_append]
  rfl

theorem filled_delete : Piece.filled bindings deleteText.toList =
    "DELETE".toList ++ ' ' :: ("WHERE".toList ++ ' ' ::
      block (slotText bindings "a") (slotText bindings "b") (slotText bindings "c")) ++
    separator.toList ++
    ("DELETE".toList ++ ' ' :: ("WHERE".toList ++ ' ' ::
      block (slotText bindings "d") (slotText bindings "e") (slotText bindings "a"))) := by
  simp only [block, List.append_assoc, List.cons_append, List.nil_append]
  rfl

theorem filled_redirect : Piece.filled bindings redirectText.toList =
    "DELETE".toList ++ ' ' ::
      (block (slotText bindings "s") (slotText bindings "p") (slotText bindings "old") ++ ' ' ::
        ("INSERT".toList ++ ' ' ::
          (block (slotText bindings "s") (slotText bindings "p") (slotText bindings "new") ++
            ' ' :: ("WHERE".toList ++ ' ' ::
              block (slotText bindings "s") (slotText bindings "p")
                (slotText bindings "old"))))) ++
    separator.toList ++
    ("DELETE".toList ++ ' ' :: ("WHERE".toList ++ ' ' ::
      block (slotText bindings "old") (slotText bindings "b") (slotText bindings "c"))) := by
  simp only [block, List.append_assoc, List.cons_append, List.nil_append]
  rfl

end Templates

/-! ### What the updates do -/

open Sparql.Grammar (Names Says reads_insertData reads_deleteData reads_deleteWhere reads_remove
  reads_exchange)
open Sparql.Update (Carries)

/-- A text that is read as steps which do to the triples of every graph what a function does. -/
def Performs (env : Prologue) (text : String) (f : Graph → Graph) : Prop :=
  ∃ steps, Reads env text.toList steps ∧ Carries steps f

variable {env : Prologue}

theorem Performs.append {text other : String} {f f' : Graph → Graph} (h : Performs env text f)
    (hother : Performs env other f') : Performs env (text ++ separator ++ other) (f' ∘ f) := by
  obtain ⟨steps, hread, hcarries⟩ := h
  obtain ⟨others, hreadOther, hcarriesOther⟩ := hother
  refine ⟨steps ++ others, ?_, hcarries.append hcarriesOther⟩
  rw [String.toList_append, String.toList_append]
  exact hread.append hreadOther

theorem Performs.congr {text : String} {f f' : Graph → Graph} (h : Performs env text f)
    (hf : ∀ g, Graph.Same (f g) (f' g)) : Performs env text f' := by
  obtain ⟨steps, hread, hcarries⟩ := h
  exact ⟨steps, hread, hcarries.congr hf⟩

theorem names_iri (hbase : env.base = none) {s : String} (h : ValidIri s) :
    Names env (Term.iri s).n3.toList (.iri s) := by
  have hnaming := @Naming.iri env s
  rw [Sparql.Grammar.resolve_of_base hbase] at hnaming
  exact ⟨_, Sparql.Lexer.spells_iri h, hnaming⟩

theorem says_iri (hbase : env.base = none) {s : String} (h : ValidIri s) :
    Says env (Term.iri s).n3.toList (.iri s) := by
  have hreading := @Reading.iri env s
  rw [Sparql.Grammar.resolve_of_base hbase] at hreading
  exact ⟨_, Sparql.Lexer.spells_iri h, hreading⟩

theorem ground_of_same {t u : Term} (h : t.same u = true) (hu : u.Writable) : Ground t := by
  cases t with
  | iri s => exact .iri s
  | literal l => exact .literal l
  | blank label => cases u <;> first | exact hu.elim | simp [Term.same] at h
  | var name => cases u <;> first | exact hu.elim | simp [Term.same] at h

theorem honest_of_reading {ts : List Sparql.Token} {t : Term} (h : Reading env ts t) :
    t.Honest := by
  rintro l rfl
  cases h with
  | plain s => exact .text s none
  | tagged s tag => exact .text s (some tag)
  | typed s datatype => exact Literal.honest_typed s _

/-- What may be bound to a slot is read as a term that is the same. -/
theorem says_writable (hbase : env.base = none) {v : Term} (h : v.Writable) :
    ∃ read, Says env v.n3.toList read ∧ Ground read ∧ read.Honest ∧ read.same v = true := by
  obtain ⟨ts, read, hspell, hread, hsame⟩ := Sparql.Lexer.spells_writable h hbase
  exact ⟨read, ⟨ts, hspell, hread⟩, ground_of_same hsame h, honest_of_reading hread, hsame⟩

theorem spells_letter {c : Char} (h : Sparql.Lexer.isNameStart c = true) :
    Spells ['?', c] [.var (String.ofList [c])] := by
  apply Sparql.Lexer.spells_var (by simp [h])
  intro d hd
  rw [List.mem_singleton.mp hd]
  simp [Sparql.Lexer.isVarPart, h]

theorem names_var {c : Char} (h : Sparql.Lexer.isNameStart c = true) :
    Names env ['?', c] (.var (String.ofList [c])) :=
  ⟨_, spells_letter h, .var _⟩

theorem says_var {c : Char} (h : Sparql.Lexer.isNameStart c = true) :
    Says env ['?', c] (.var (String.ofList [c])) :=
  ⟨_, spells_letter h, .var _⟩

section Data

variable {s p o v : Term}

theorem same_triple (h : o.same v = true) : (⟨s, p, o⟩ : Triple).same ⟨s, p, v⟩ = true := by
  simp [Triple.same, h]

theorem named_ground (hs : Ground s) (hp : Ground p) (ho : Ground o) :
    ∀ q ∈ [TriplePattern.plain s p o], Sparql.Named q := fun q hq => by
  rw [List.mem_singleton.mp hq]
  exact .plain hs.noBlank hp.noBlank ho.noBlank

theorem carries_insertData (hs : Ground s) (hp : Ground p) (ho : Ground o) (hhonest : o.Honest)
    (hsame : o.same v = true) :
    Carries [.insertData [.plain s p o]] fun g => g.insert ⟨s, p, v⟩ where
  named step hstep := by
    rw [List.mem_singleton.mp hstep]
    exact named_ground hs hp ho
  honest step hstep := by
    rw [List.mem_singleton.mp hstep]
    exact fun q hq => List.mem_singleton.mp hq ▸ hhonest
  same {g h} hgh u := by
    have hholds := UpdateStep.holds_insertData (named_ground hs hp ho) g u
    rw [Graph.holds_insert, ← hgh u, ← Triple.same_right (same_triple hsame) u]
    simpa [TriplePattern.plain, TriplePattern.triple?] using hholds

theorem carries_deleteData (hs : Ground s) (hp : Ground p) (ho : Ground o)
    (hsame : o.same v = true) :
    Carries [.deleteData [.plain s p o]] fun g => g.erase ⟨s, p, v⟩ where
  named step hstep := by
    rw [List.mem_singleton.mp hstep]
    exact named_ground hs hp ho
  honest step hstep := by
    rw [List.mem_singleton.mp hstep]
    trivial
  same {g h} hgh u := by
    have hholds := UpdateStep.holds_deleteData (named_ground hs hp ho) g u
    rw [Graph.holds_erase, ← hgh u, ← Triple.same_left (same_triple hsame) u]
    simpa [TriplePattern.plain, TriplePattern.triple?] using hholds

theorem carries_remove (hs : Ground s) (hp : Ground p) (ho : Ground o)
    (hsame : o.same v = true) :
    Carries [.modify [.plain s p o] [] (.bgp [.plain s p o])] fun g => g.erase ⟨s, p, v⟩ where
  named step hstep := by
    rw [List.mem_singleton.mp hstep]
    exact ⟨named_ground hs hp ho, by simp⟩
  honest step hstep := by
    rw [List.mem_singleton.mp hstep]
    exact fun q hq => absurd hq List.not_mem_nil
  same {g h} hgh u := by
    have hholds := UpdateStep.holds_removeGround hs hp ho g u
    rw [Graph.holds_erase, ← hgh u, ← Triple.same_left (same_triple hsame) u]
    exact hholds

end Data

theorem named_subject (a : String) (b c : String) :
    Sparql.Named (.plain (.iri a) (.var b) (.var c)) :=
  .plain (Ground.iri a).noBlank (Sparql.noBlank_var b) (Sparql.noBlank_var c)

theorem named_object (a b : String) (o : String) :
    Sparql.Named (.plain (.var a) (.var b) (.iri o)) :=
  .plain (Sparql.noBlank_var a) (Sparql.noBlank_var b) (Ground.iri o).noBlank

theorem carries_delete (uri : String) {b c d e : String} (hbc : b ≠ c) (hde : d ≠ e) :
    Carries [.deleteWhere [.plain (.iri uri) (.var b) (.var c)],
      .deleteWhere [.plain (.var d) (.var e) (.iri uri)]] (·.withoutNode uri) where
  named := by
    simp [UpdateStep.Named, named_subject, named_object]
  honest := by
    simp [UpdateStep.Honest]
  same {g h} hgh u := by
    rw [Graph.holds_withoutNode, ← hgh u, Update.applyAll_cons, Update.applyAll_singleton,
      UpdateStep.holds_deleteObject uri hde, UpdateStep.holds_deleteSubject uri hbc,
      Bool.and_assoc]

theorem carries_redirect (old new : String) {a b c d : String} (hab : a ≠ b) (hcd : c ≠ d) :
    Carries [.modify [.plain (.var a) (.var b) (.iri old)] [.plain (.var a) (.var b) (.iri new)]
        (.bgp [.plain (.var a) (.var b) (.iri old)]),
      .deleteWhere [.plain (.iri old) (.var c) (.var d)]] (·.redirected old new) where
  named := by
    simp [UpdateStep.Named, named_subject, named_object]
  honest := by
    simp [UpdateStep.Honest, TriplePattern.plain, Term.honest_iri]
  same {g h} hgh u := by
    rw [Graph.holds_redirected, ← hgh u, ← hgh { u with object := .iri old }, Update.applyAll_cons,
      Update.applyAll_singleton, UpdateStep.holds_deleteSubject old hcd,
      UpdateStep.holds_exchangeObject old new hab]

/-! ### Kinds of changes -/

/-- A change whose update can be written and does to every graph what a function does. -/
def Does (env : Prologue) (c : Change) (f : Graph → Graph) : Prop :=
  ∃ text, c.update = .ok text ∧ Performs env text f

variable {s p : String} {v w : Term}

theorem does_add (hbase : env.base = none) (hs : ValidIri s) (hp : ValidIri p)
    (hv : v.Writable) :
    Does env (.add s p v) fun g => g.insert ⟨.iri s, .iri p, v⟩ := by
  obtain ⟨read, hread, hground, hhonest, hsame⟩ := says_writable hbase hv
  refine ⟨((((Template.ofText addText).bind "s" (.iri s)).bind "p" (.iri p)).bind "o" v).render,
    ?_, _, ?_, carries_insertData (.iri s) (.iri p) hground hhonest hsame⟩
  · simp only [update, Template.setIri_of_valid hs, Template.setIri_of_valid hp,
      Template.setTerm_of_writable hv]
    rfl
  · have hfill := reads_insertData (names_iri hbase hs) (names_iri hbase hp) hread
    rw [Template.toList_render]
    simpa [filled_add] using hfill

theorem does_remove (hbase : env.base = none) (hs : ValidIri s) (hp : ValidIri p)
    (hv : v.Writable) :
    Does env (.remove s p v) fun g => g.erase ⟨.iri s, .iri p, v⟩ := by
  obtain ⟨read, hread, hground, -, hsame⟩ := says_writable hbase hv
  refine ⟨((((Template.ofText removeText).bind "s" (.iri s)).bind "p" (.iri p)).bind "o"
    v).render, ?_, _, ?_, carries_deleteData (.iri s) (.iri p) hground hsame⟩
  · simp only [update, Template.setIri_of_valid hs, Template.setIri_of_valid hp,
      Template.setTerm_of_writable hv]
    rfl
  · have hfill := reads_deleteData (names_iri hbase hs) (names_iri hbase hp) hread
    rw [Template.toList_render]
    simpa [filled_remove] using hfill

theorem does_replace (hbase : env.base = none) (hs : ValidIri s) (hp : ValidIri p)
    (hv : v.Writable) (hw : w.Writable) :
    Does env (.replace s p v w) fun g =>
      (g.erase ⟨.iri s, .iri p, v⟩).insert ⟨.iri s, .iri p, w⟩ := by
  obtain ⟨old, hold, hground, -, hsame⟩ := says_writable hbase hv
  obtain ⟨new, hnew, hgroundNew, hhonest, hsameNew⟩ := says_writable hbase hw
  have hcarries := (carries_remove (.iri s) (.iri p) hground hsame).append
    (carries_insertData (.iri s) (.iri p) hgroundNew hhonest hsameNew)
  refine ⟨(((((Template.ofText replaceText).bind "s" (.iri s)).bind "p" (.iri p)).bind "o"
    v).bind "n" w).render, ?_, _, ?_, hcarries⟩
  · simp only [update, Template.setIri_of_valid hs, Template.setIri_of_valid hp,
      Template.setTerm_of_writable hv, Template.setTerm_of_writable hw]
    rfl
  · have hfill := (reads_remove (names_iri hbase hs) (names_iri hbase hp) hold).append
      (reads_insertData (names_iri hbase hs) (names_iri hbase hp) hnew)
    rw [Template.toList_render]
    simpa [filled_replace] using hfill

theorem does_delete (hbase : env.base = none) (hs : ValidIri s) :
    Does env (.delete s) (·.withoutNode s) := by
  refine ⟨((Template.ofText deleteText).bind "a" (.iri s)).render, ?_, _, ?_,
    carries_delete s (b := "b") (c := "c") (d := "d") (e := "e") (by decide) (by decide)⟩
  · simp only [update, Template.setIri_of_valid hs]
    rfl
  · have hfill := (reads_deleteWhere (names_iri hbase hs) (names_var (c := 'b') rfl)
      (says_var (c := 'c') rfl)).append (reads_deleteWhere (names_var (c := 'd') rfl)
        (names_var (c := 'e') rfl) (says_iri hbase hs))
    rw [Template.toList_render]
    simpa [filled_delete] using hfill

theorem does_redirect (hbase : env.base = none) {old new : String} (hold : ValidIri old)
    (hnew : ValidIri new) :
    Does env (.redirect old new) (·.redirected old new) := by
  refine ⟨(((Template.ofText redirectText).bind "old" (.iri old)).bind "new"
      (.iri new)).render, ?_, _, ?_,
    carries_redirect old new (a := "s") (b := "p") (c := "b") (d := "c") (by decide)
      (by decide)⟩
  · simp only [update, Template.setIri_of_valid hold, Template.setIri_of_valid hnew]
    rfl
  · have hfill := (reads_exchange (names_var (c := 's') rfl) (names_var (c := 'p') rfl)
      (says_iri hbase hold) (says_iri hbase hnew)).append (reads_deleteWhere
        (names_iri hbase hold) (names_var (c := 'b') rfl) (says_var (c := 'c') rfl))
    rw [Template.toList_render]
    simpa [filled_redirect] using hfill

end Change

end EntityMapping
