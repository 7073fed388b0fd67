import EntityMapping.Proofs.Change.Update
import EntityMapping.Proofs.Template.Slots

/-!
What callers bind to a template, and the tokens that are rendered for it.

IRIs, literals of values, and values that are terms are bound in any order, and a later one takes
the place of an earlier one of the same name.  Where each bound term stays inside its marks, the
tokens of the rendered text are those of the template with the terms' tokens in place of the bound
variables.
-/

namespace EntityMapping

open Sparql Sparql.Lexer

namespace Template

/-- A call that binds something to a name. -/
inductive Call where
  | iri (name s : String)
  | literal (name : String) (value : Value) (datatype : Option String)
  | param (name : String) (value : Value)

namespace Call

/-- The name that a call is about. -/
def name : Call → String
  | .iri name _ | .literal name _ _ | .param name _ => name

/-- The term that a call binds, or why it does not. -/
def term : Call → Except MappingError Term
  | .iri _ s => checkIri s
  | .literal _ value datatype => .ok (.literal (value.toLiteral (datatype.filter (!·.isEmpty))))
  | .param name value => slotTerm name value

/-- The template behind a call. -/
def apply (t : Template) : Call → Except MappingError Template
  | .iri name s => t.setIri name s
  | .literal name value datatype => .ok (t.setLiteral name value datatype)
  | .param name value => t.setParam name value

theorem apply_eq_ok {t after : Template} {call : Call} (h : call.apply t = .ok after) :
    ∃ v, call.term = .ok v ∧ after = t.bind call.name v := by
  cases call with
  | iri name s =>
      obtain ⟨v, hv, hafter⟩ := bind_eq_ok.mp h
      exact ⟨v, hv, (pure_eq_ok.mp hafter).symm⟩
  | literal name value datatype => exact ⟨_, rfl, (Except.ok.inj h).symm⟩
  | param name value =>
      obtain ⟨v, hv, hafter⟩ := bind_eq_ok.mp h
      exact ⟨v, hv, (pure_eq_ok.mp hafter).symm⟩

/-- What a call binds is an IRI that passes the check, or a literal. -/
theorem bindable {call : Call} {v : Term} (h : call.term = .ok v) : v.Bindable := by
  cases call with
  | iri name s =>
      obtain ⟨rfl, haccepted⟩ := checkIri_ok h
      exact haccepted
  | literal name value datatype =>
      obtain rfl := Except.ok.inj h
      trivial
  | param name value =>
      rcases value with - | d | t | ⟨id, uri⟩ | items
      · contradiction
      · contradiction
      · cases t with
        | iri s =>
            obtain ⟨rfl, haccepted⟩ := checkIri_ok h
            exact haccepted
        | literal l =>
            obtain rfl := Except.ok.inj h
            trivial
        | blank label => contradiction
        | var other => contradiction
      · contradiction
      · contradiction

end Call

/-- The template behind calls, where all of them are accepted. -/
def applyAll (t : Template) (calls : List Call) : Except MappingError Template :=
  calls.foldlM Call.apply t

/-- What calls leave bound to a name: the term of the last one that is about it. -/
def bound : List Call → String → Option Term
  | [], _ => none
  | call :: calls, name =>
    (bound calls name).or (if call.name = name then call.term.toOption else none)

theorem mem_of_bound {calls : List Call} {name : String} {v : Term}
    (h : bound calls name = some v) : ∃ call ∈ calls, call.name = name ∧ call.term = .ok v := by
  induction calls with
  | nil => contradiction
  | cons call calls ih =>
      rw [bound, Option.or_eq_some_iff] at h
      rcases h with h | ⟨-, h⟩
      · obtain ⟨other, hother, hsome⟩ := ih h
        exact ⟨other, List.mem_cons_of_mem _ hother, hsome⟩
      · split at h
        · next hname =>
            refine ⟨call, List.mem_cons_self, hname, ?_⟩
            cases hterm : call.term with
            | error e =>
                rw [hterm] at h
                contradiction
            | ok w =>
                rw [hterm] at h
                exact congrArg Except.ok (Option.some.inj h)
        · contradiction

theorem bindable_of_bound {calls : List Call} {name : String} {v : Term}
    (h : bound calls name = some v) : v.Bindable := by
  obtain ⟨call, -, -, hterm⟩ := mem_of_bound h
  exact Call.bindable hterm

/-- Accepted calls keep the text, and the bindings are theirs. -/
theorem applyAll_eq_ok {start t : Template} {calls : List Call}
    (h : start.applyAll calls = .ok t) :
    t.text = start.text ∧
      ∀ name, t.bindings.lookup name = (bound calls name).or (start.bindings.lookup name) := by
  -- What the first call binds is where the others start from, and theirs goes first in `bound`.
  induction calls generalizing start with
  | nil =>
      obtain rfl := Except.ok.inj h
      exact ⟨rfl, fun name => rfl⟩
  | cons call calls ih =>
      rw [applyAll, List.foldlM_cons] at h
      obtain ⟨after, hcall, hcalls⟩ := bind_eq_ok.mp h
      obtain ⟨v, hterm, rfl⟩ := Call.apply_eq_ok hcall
      obtain ⟨htext, hlookup⟩ := ih hcalls
      refine ⟨htext, fun name => ?_⟩
      rw [hlookup, lookup_bind, bound, hterm]
      by_cases hname : call.name = name
      · simp [hname, Except.toOption]
      · simp [hname, Ne.symm hname]

end Template

/-! ### Skeletons -/

/-- A token without what it says, as far as the tokens of terms are concerned. -/
def Sparql.Token.shape : Token → Token
  | .iri _ => .iri ""
  | .text _ => .text ""
  | .tag _ => .tag ""
  | t => t

/-- The kinds of terms that are bound. -/
inductive Term.Kind where
  | iri
  | plain
  | tagged
  | typed
  | other
  deriving DecidableEq, Repr

/-- The kind of a literal. -/
def Literal.kind (l : Literal) : Term.Kind :=
  match l.language, l.datatype with
  | some _, _ => .tagged
  | none, some datatype => if datatype.isEmpty then .plain else .typed
  | none, none => .plain

/-- The kind of a term. -/
def Term.kind : Term → Term.Kind
  | .iri _ => .iri
  | .literal l => l.kind
  | .blank _ | .var _ => .other

/-- The tokens without what they say. -/
def skeleton (ts : List Token) : List Token :=
  ts.map Token.shape

/-- The shape of a term of a kind. -/
def Term.Kind.skeleton : Term.Kind → List Token
  | .iri => [.iri ""]
  | .plain => [.text ""]
  | .tagged => [.text "", .tag ""]
  | .typed => [.text "", .sign "^^", .iri ""]
  | .other => []

theorem Literal.skeleton_tokens (l : Literal) : skeleton l.tokens = l.kind.skeleton := by
  unfold tokens suffixTokens kind
  cases l.language with
  | some tag => rfl
  | none =>
      cases l.datatype with
      | none => rfl
      | some datatype =>
          by_cases hempty : datatype.isEmpty = true
          · simp only [if_pos hempty]
            rfl
          · simp only [if_neg hempty]
            rfl

theorem Term.skeleton_tokens {t : Term} (h : t.Bindable) :
    skeleton t.tokens = t.kind.skeleton := by
  cases t with
  | iri s => rfl
  | literal l => exact l.skeleton_tokens
  | blank label => exact h.elim
  | var name => exact h.elim

theorem skeleton_tokensFor {a b : String → Option Term}
    (ha : ∀ name v, a name = some v → v.Bindable) (hb : ∀ name v, b name = some v → v.Bindable)
    (hkind : ∀ name, (a name).map Term.kind = (b name).map Term.kind) (ts : List Token) :
    skeleton (ts.flatMap (tokensFor a)) = skeleton (ts.flatMap (tokensFor b)) := by
  rw [skeleton, skeleton, List.map_flatMap, List.map_flatMap]
  refine List.flatMap_congr fun t _ => ?_
  cases t with
  | var name =>
      have hsame := hkind name
      simp only [tokensFor]
      cases hfirst : a name with
      | none =>
          rw [hfirst, Option.map_none, eq_comm, Option.map_eq_none_iff] at hsame
          rw [hsame]
      | some v =>
          rw [hfirst, Option.map_some, eq_comm, Option.map_eq_some_iff] at hsame
          obtain ⟨w, hsecond, hvw⟩ := hsame
          rw [hsecond]
          exact (Term.skeleton_tokens (ha name v hfirst)).trans
            (hvw ▸ (Term.skeleton_tokens (hb name w hsecond)).symm)
  | _ => rfl

namespace Template

/-! ### The rendered text -/

/-- What stands in the place of a slot is one term and nothing else, whatever it is made of. -/
theorem cut_render {s : String} (hslots : Slotted s.toList) {ts : List Token}
    (hts : cut s.toList = some ts) {calls : List Call} {t : Template}
    (h : (ofText s).applyAll calls = .ok t)
    (hclean : ∀ name v, bound calls name = some v → v.Clean) :
    cut t.render.toList = some (ts.flatMap (tokensFor (bound calls))) := by
  obtain ⟨htext, hlookup⟩ := applyAll_eq_ok h
  have hbindings : (fun name => t.bindings.lookup name) = bound calls := by
    funext name
    rw [hlookup, bindings_ofText, List.lookup_nil, Option.or_none]
  have hbindable : ∀ name v, t.bindings.lookup name = some v → v.Bindable := fun name v hv =>
    bindable_of_bound (congrFun hbindings name ▸ hv)
  have hlookedUp : ∀ name v, t.bindings.lookup name = some v → v.Clean := fun name v hv =>
    hclean name v (congrFun hbindings name ▸ hv)
  have hcuts := cuts_filled hbindable hlookedUp hslots hts
  rw [toList_render, htext, text_ofText, ← hbindings]
  exact hcuts.cut_eq

/-- Values cannot change how a template is cut.  Each bound variable gives way to the tokens of the
term that was bound last, the request is read so where nothing in it is replaced beforehand, and
other terms of the same kinds give the same skeleton. -/
theorem tokens_render {s : String} (hslots : Slotted s.toList) {ts : List Token}
    (hts : cut s.toList = some ts) {calls : List Call} {t : Template}
    (h : (ofText s).applyAll calls = .ok t)
    (hclean : ∀ name v, bound calls name = some v → v.Clean) :
    cut t.render.toList = some (ts.flatMap (tokensFor (bound calls))) ∧
      ('\t' ∉ t.render.toList → expanded t.render.toList = some t.render.toList →
        tokens t.render = some (ts.flatMap (tokensFor (bound calls)))) ∧
      ∀ (others : List Call) (t' : Template), (ofText s).applyAll others = .ok t' →
        (∀ name v, bound others name = some v → v.Clean) →
        (∀ name, (bound calls name).map Term.kind = (bound others name).map Term.kind) →
        (cut t.render.toList).map skeleton = (cut t'.render.toList).map skeleton := by
  have hcut := cut_render hslots hts h hclean
  refine ⟨hcut, fun htab hescape => (tokens_eq_cut htab hescape).trans hcut, ?_⟩
  intro others t' hothers hclean' hkind
  rw [hcut, cut_render hslots hts hothers hclean', Option.map_some, Option.map_some]
  exact congrArg some (skeleton_tokensFor (fun _ _ => bindable_of_bound)
    (fun _ _ => bindable_of_bound) hkind ts)

/-- A request with marks in an IRI and in a text, which are no slots. -/
def noteText : String :=
  "INSERT DATA \x7b ?s <http://e/at?v> ?o , \"?o\" \x7d"

/-- The calls that bind an IRI and a text to its slots. -/
def noteCalls (iri text : String) : List Call :=
  [.iri "s" iri, .literal "o" (.datum (.text text)) none]

theorem slotted_noteText : Slotted noteText.toList := by
  have htext : noteText.toList =
      "INSERT".toList ++ ' ' :: ("DATA".toList ++ ' ' :: ("\x7b".toList ++ ' ' :: ("?s".toList ++
        ' ' :: ("<http://e/at?v>".toList ++ ' ' :: ("?o".toList ++ ' ' :: (",".toList ++ ' ' ::
          ("\"?o\"".toList ++ ' ' :: ("\x7d".toList ++ [])))))))) := by
    decide
  rw [htext]
  refine .plain (c := 'I') (by decide) (t := .word "INSERT") (by decide +kernel) nofun ?_
  refine .space (by decide) ?_
  refine .plain (c := 'D') (by decide) (t := .word "DATA") (by decide +kernel) nofun ?_
  refine .space (by decide) ?_
  refine .plain (c := '\x7b') (by decide) (t := .sign "\x7b") (by decide +kernel) nofun ?_
  refine .space (by decide) (.slot (.inl rfl) (Piece.isSlotName_of_all rfl rfl) rfl ?_)
  refine .space (by decide) ?_
  refine .token (t := .iri "http://e/at?v") (by decide +kernel) nofun
    (kept_verbatim (by decide +kernel)) (by decide) ?_
  refine .space (by decide) (.slot (.inl rfl) (Piece.isSlotName_of_all rfl rfl) rfl ?_)
  refine .space (by decide) ?_
  refine .plain (c := ',') (by decide) (t := .sign ",") (by decide +kernel) nofun ?_
  refine .space (by decide) ?_
  refine .token (c := '"') (t := .text "?o") (by decide +kernel) nofun
    (kept_verbatim (by decide +kernel)) (by decide) ?_
  refine .space (by decide) ?_
  exact .plain (c := '\x7d') (by decide) (t := .sign "\x7d") (by decide +kernel) nofun .nothing

theorem clean_noteCalls {iri text : String} (hiri : iri.toList.all (0x20 ≤ ·.toNat) = true)
    (htext : '\n' ∉ text.toList) {name : String} {v : Term}
    (h : bound (noteCalls iri text) name = some v) : v.Clean := by
  obtain ⟨call, hcall, -, hterm⟩ := mem_of_bound h
  simp only [noteCalls, List.mem_cons, List.not_mem_nil, or_false] at hcall
  rcases hcall with rfl | rfl
  · obtain ⟨rfl, -⟩ := checkIri_ok hterm
    exact fun c hc => of_decide_eq_true (List.all_eq_true.mp hiri c hc)
  · obtain rfl := Except.ok.inj hterm
    exact ⟨nofun, fun _ => nofun, fun hline => absurd hline htext⟩

theorem tokens_render_note :
    ∃ t t', (ofText noteText).applyAll (noteCalls "http://e/n1" "a\" . ?s") = .ok t ∧
      (ofText noteText).applyAll (noteCalls "http://e/n2" "\x7d") = .ok t' ∧
      tokens t.render = some [.word "INSERT", .word "DATA", .sign "\x7b", .iri "http://e/n1",
        .iri "http://e/at?v", .text "a\" . ?s", .sign ",", .text "?o", .sign "\x7d"] ∧
      (cut t.render.toList).map skeleton = (cut t'.render.toList).map skeleton := by
  have hcut : cut noteText.toList = some [.word "INSERT", .word "DATA", .sign "\x7b", .var "s",
      .iri "http://e/at?v", .var "o", .sign ",", .text "?o", .sign "\x7d"] := by
    decide +kernel
  have hcalls : (ofText noteText).applyAll (noteCalls "http://e/n1" "a\" . ?s") = .ok _ := rfl
  obtain ⟨-, htokens, hother⟩ := tokens_render slotted_noteText hcut hcalls
    fun _ _ => clean_noteCalls (by decide) (by decide)
  refine ⟨_, _, rfl, rfl, htokens (by decide +kernel) (by decide +kernel),
    hother (noteCalls "http://e/n2" "\x7d") _ rfl
      (fun _ _ => clean_noteCalls (by decide) (by decide)) fun name => ?_⟩
  by_cases hs : "s" = name
  · subst hs
    decide +kernel
  · by_cases ho : "o" = name
    · subst ho
      decide +kernel
    · simp [bound, noteCalls, Call.name, hs, ho]

/-- A call that binds a text with a datatype to the object of an addition. -/
def typedCalls (datatype : String) : List Call :=
  [.literal "o" (.datum (.text "x")) (some datatype)]

/-- A datatype is not checked as IRIs are, and one with a bracket in it ends early: what is behind
the bracket becomes part of the request, and the skeleton is another one. -/
theorem not_tokens_render_typed :
    ∃ t t' ts, (ofText Change.addText).applyAll
        (typedCalls "http://e/> . <http://e/a> <http://e/b> <http://e/c") = .ok t ∧
      (ofText Change.addText).applyAll (typedCalls "http://e/d") = .ok t' ∧
      cut Change.addText.toList = some ts ∧
      cut t.render.toList ≠ some (ts.flatMap (tokensFor
        (bound (typedCalls "http://e/> . <http://e/a> <http://e/b> <http://e/c")))) ∧
      (∀ name, (bound (typedCalls "http://e/> . <http://e/a> <http://e/b> <http://e/c") name).map
        Term.kind = (bound (typedCalls "http://e/d") name).map Term.kind) ∧
      (cut t.render.toList).map skeleton ≠ (cut t'.render.toList).map skeleton := by
  refine ⟨_, _, [.word "INSERT", .word "DATA", .sign "\x7b", .var "s", .var "p", .var "o",
    .sign "\x7d"], rfl, rfl, by decide +kernel, by decide +kernel, fun name => ?_,
    by decide +kernel⟩
  by_cases ho : "o" = name
  · subst ho
    decide +kernel
  · simp [bound, typedCalls, Call.name, ho]

end Template

end EntityMapping
