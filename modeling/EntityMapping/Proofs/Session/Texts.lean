import EntityMapping.Proofs.Session.Selected
import EntityMapping.Proofs.Sparql.Declarations
import EntityMapping.Proofs.Sparql.Gaps

/-!
The texts that entities of a type are loaded with.

All entities are loaded with the declarations of the mapped text and its body; one entity, and those
that satisfy a condition, with the body between braces.  The text is cut into declarations and body by
its characters.  Where the cut is where the declarations end, and what is on either side of it is
spelled by itself as it is in the text, all three texts are read, and the body between braces is read
as it is by itself.  That is not so of a body that ends in a comment, which hides the braces behind it.
-/

namespace EntityMapping

open Sparql Sparql.Lexer Sparql.Grammar Sparql.Parser

namespace Sparql

/-- The same pattern, perhaps with other labels for its blank nodes.  Nodes with different labels keep
different labels. -/
def Algebra.SameUpToLabels (p p' : Algebra) : Prop :=
  ∃ rename, Function.Injective rename ∧ p' = p.relabel rename

theorem Algebra.SameUpToLabels.mentioned {p p' : Algebra} (h : p.SameUpToLabels p') :
    p'.mentioned = p.mentioned := by
  obtain ⟨rename, -, rfl⟩ := h
  exact mentioned_relabel p

theorem Algebra.sameUpToLabels_moved (p : Algebra) (distance : Nat) :
    p.SameUpToLabels (p.relabel (moveLabel distance)) :=
  ⟨_, moveLabel_injective, rfl⟩

namespace Lexer

/-! ### Wrapped texts -/

/-- A name that variables may have. -/
def VarName (name : String) : Prop :=
  name.toList.head?.any (fun c => isNameStart c || c.isDigit) = true ∧
    ∀ c ∈ name.toList, isVarPart c = true

theorem VarName.spells {name : String} (h : VarName name) :
    Spells ('?' :: name.toList) [.var name] := by
  obtain ⟨hstart, hparts⟩ := h
  rcases hcs : name.toList with - | ⟨c, cs⟩
  · rw [hcs] at hstart
    contradiction
  · rw [hcs] at hstart hparts
    rw [← String.ofList_toList (s := name), hcs]
    exact spells_var hstart hparts

theorem leads_all : Leads "SELECT * WHERE \x7b ".toList
    [.word "SELECT", .sign "*", .word "WHERE", .sign "\x7b"] := by
  have hselect : Spells "SELECT".toList [.word "SELECT"] :=
    spells_of_takeToken (by decide) rfl ⟨by decide, by decide⟩ rfl
      (by rintro c rest (rfl | rfl) <;> rfl)
  have hstar : Spells ['*'] [.sign "*"] :=
    spells_of_takeToken (by decide) rfl ⟨by decide, by decide⟩ rfl
      (by rintro c rest (rfl | rfl) <;> rfl)
  have hspace : IsGap ' ' := .inl rfl
  exact ((hselect.leads hspace).append (hstar.leads hspace)).append
    ((spells_where.leads hspace).append (spells_opening.leads hspace))

/-- A selection of everything around a nested one. -/
theorem spells_wrapping {front body back : List Char} {first nested last : List Token}
    (hfirst : Leads front first) (hnested : Spells body nested) (hlast : Leads back last) :
    Spells ("SELECT * WHERE \x7b ".toList ++ (front ++ '\x7b' :: ' ' ::
      (body ++ ' ' :: '\x7d' :: ' ' :: (back ++ ['\x7d'])))) (wrapping first nested last) := by
  have hspace : IsGap ' ' := .inl rfl
  have hclosed := hnested.append (spells_closing.append (hlast _ _ spells_closing) hspace) hspace
  have hopened := hfirst _ _ (spells_opening.append hclosed hspace)
  exact leads_all _ _ hopened

theorem leads_values {name iri : String} (hname : VarName name)
    (hiri : ∀ c ∈ iri.toList, isIriChar c = true) :
    Leads ("VALUES ?".toList ++ (name.toList ++ " \x7b ".toList ++ (Term.iri iri).n3.toList ++
        " \x7d ".toList))
      [.word "VALUES", .var name, .sign "\x7b", .iri iri, .sign "\x7d"] := by
  have hvalues : Spells "VALUES".toList [.word "VALUES"] :=
    spells_of_takeToken (by decide) rfl ⟨by decide, by decide⟩ rfl
      (by rintro c rest (rfl | rfl) <;> rfl)
  have hspace : IsGap ' ' := .inl rfl
  have hblock := ((spells_opening.leads hspace).append ((spells_reference hiri).leads hspace)).append
    (spells_closing.leads hspace)
  have hall := (hvalues.leads hspace).append ((hname.spells.leads hspace).append hblock)
  simpa [List.append_assoc] using hall

theorem leads_filter {condition : List Char} {ts : List Token} (h : Spells condition ts) :
    Leads ("FILTER ".toList ++ (condition ++ [' '])) (.word "FILTER" :: ts) := by
  have hfilter : Spells "FILTER".toList [.word "FILTER"] :=
    spells_of_takeToken (by decide) rfl ⟨by decide, by decide⟩ rfl
      (by rintro c rest (rfl | rfl) <;> rfl)
  have hspace : IsGap ' ' := .inl rfl
  exact (hfilter.leads hspace).append (h.leads hspace)

end Lexer

end Sparql

/-! ### Cut texts -/

namespace SelectQuery

/-- A text that is cut where its declarations end.  What is in front of the cut and what is behind it
are spelled by themselves as they are in the text, and no graph is asked for. -/
structure CutBehind (start : Prologue) (s : String) (ds ts : List Token) (env : Prologue) :
    Prop where
  tokens : tokens s = some (ds ++ ts)
  declared : prologue start (ds ++ ts) = some (env, ts)
  own : Spells (Text.trim (splitText s).1) ds
  body : Spells (Text.trim (splitText s).2) ts
  graph : askedGraph env ts = none

variable {namespaces : List (String × String)} {s : String} {q : SelectQuery}
  {start env : Prologue} {ds ts : List Token}

theorem written_of_tokens (h : tokens s = some ts) : ∀ t ∈ ts, t.Written := by
  obtain ⟨cs, -, hcut⟩ := Option.bind_eq_some_iff.mp h
  exact (allTaken_of_tokensWithin hcut).written

theorem CutBehind.written (h : CutBehind start s ds ts env) : ∀ t ∈ ts, t.Written :=
  fun t ht => written_of_tokens h.tokens t (List.mem_append_right _ ht)

theorem written_of_spells {word : List Char} (h : Spells word ts) : ∀ t ∈ ts, t.Written :=
  written_of_tokens (tokens_eq_some h)

/-- What is read besides the pattern of a selection. -/
theorem read_texts (h : read namespaces s = .ok q) :
    q.declarations = declarationText namespaces (splitText s).1 ∧
      q.body = String.ofList (Text.trim (splitText s).2) := by
  unfold read at h
  split at h <;> first | contradiction | skip
  obtain rfl := Except.ok.inj h
  exact ⟨rfl, rfl⟩

/-- A query behind the declarations of a cut text is read as it is read behind them. -/
theorem CutBehind.read_eq (h : CutBehind (Prologue.initial.declareAll namespaces) s ds ts env)
    (hnamespaces : ∀ n ∈ namespaces, ValidNamespace n) (hread : read namespaces s = .ok q)
    {text : String} {word : List Char} (htext : text.toList = q.declarations.toList ++ word)
    {us : List Token} {p : Algebra} {names : List String} (hword : Spells word us)
    (hselect : selectQuery env us = some (.select p names, [])) :
    Query.read .initial text = some (.select p names) := by
  have hown : Declares (Prologue.initial.declareAll namespaces) ds env := by
    obtain ⟨ds', hds, hown⟩ := declares_of_prologueWithin h.declared
    rwa [List.append_cancel_right hds]
  have hdeclares := (declares_namespaces rfl namespaces).append hown
  have hspells := leads_declarationText hnamespaces h.own _ _ hword
  have htokens := tokens_eq_some hspells
  rw [← (read_texts hread).1, ← htext, String.ofList_toList] at htokens
  rw [Query.read, htokens, Option.bind_eq_bind, Option.bind_some, parseAll,
    hdeclares.query_eq hselect]

theorem CutBehind.spells_body (h : CutBehind start s ds ts env)
    (hread : read namespaces s = .ok q) : Spells q.body.toList ts := by
  rw [(read_texts hread).2, String.toList_ofList]
  exact h.body

/-- The selection of a cut text, behind its declarations. -/
theorem CutBehind.selectQuery_eq
    (h : CutBehind (Prologue.initial.declareAll namespaces) s ds ts env)
    {p : Algebra} {names : List String}
    (hread : Query.read (Prologue.initial.declareAll namespaces) s = some (.select p names)) :
    selectQuery env ts = some (.select p names, []) := by
  rw [Query.read, h.tokens, Option.bind_eq_bind, Option.bind_some] at hread
  exact selectQuery_of_query h.declared (eq_some_of_parseAll hread)

end SelectQuery

namespace EntityType

open SelectQuery

variable {namespaces : List (String × String)} {s : String} {q : SelectQuery} {t : EntityType}
  {env : Prologue} {ds ts : List Token} {p : Algebra}

section

variable (hread : SelectQuery.read namespaces s = .ok t.query)
  (hnamespaces : ∀ n ∈ namespaces, ValidNamespace n)
  (hcut : CutBehind (Prologue.initial.declareAll namespaces) s ds ts env)
  (hselect : Query.read (Prologue.initial.declareAll namespaces) s =
    some (.select p t.query.projected))

include hread hnamespaces hcut hselect

/-- The text for all entities is read as the mapped one. -/
theorem read_allText : Query.read .initial t.allText = some (.select p t.query.projected) :=
  hcut.read_eq hnamespaces hread (String.toList_append ..) (hcut.spells_body hread)
    (hcut.selectQuery_eq hselect)

theorem read_oneText (hanchor : VarName t.anchor) {uri : String}
    (huri : ∀ c ∈ uri.toList, isIriChar c = true) :
    Query.read .initial (t.oneText (.iri uri)) =
      some ((p.relabel (moveLabel 2)).about t.anchor (env.resolve uri)) := by
  have hwrapped := spells_wrapping (leads_values hanchor huri) (hcut.spells_body hread) leads_nil
  exact hcut.read_eq hnamespaces hread (by simp [oneText]) hwrapped
    (selectQuery_about hcut.written hcut.graph (hcut.selectQuery_eq hselect) t.anchor uri)

theorem read_selectedText {condition : String} {us : List Token} {e : Expr}
    (hspells : Spells ("(" ++ condition ++ ")").toList us)
    (hcondition : (constraint env).parseAll us = some e) :
    Query.read .initial (t.selectedText condition) =
      some ((p.relabel (moveLabel (us.length + 3))).chosen e) := by
  have hwrapped := spells_wrapping leads_nil (hcut.spells_body hread) (leads_filter hspells)
  exact hcut.read_eq hnamespaces hread (by simp [selectedText]) hwrapped
    (selectQuery_chosen hcut.written hcut.graph (hcut.selectQuery_eq hselect)
      (written_of_spells hspells) hcondition)

end

/-- The three texts that entities are loaded with are read, the first as the mapped text, and the
others as selections around it, with the declarations of the mapped text in force. -/
theorem reads_texts {name : String} {anchor : Option String} {namespaceIri : String}
    {hints : SchemaHints} {overrides : List (String × Override)}
    (hread : SelectQuery.read namespaces s = .ok q)
    (hmade : ofQuery name q anchor namespaceIri hints overrides = .ok t)
    (hnamespaces : ∀ n ∈ namespaces, ValidNamespace n) (hanchor : VarName t.anchor)
    (hcut : CutBehind (Prologue.initial.declareAll namespaces) s ds ts env) :
    ∃ p, Query.read (Prologue.initial.declareAll namespaces) s = some (.select p q.projected) ∧
      q.pattern = .ofAlgebra p ∧
      Query.read .initial t.allText = some (.select p q.projected) ∧
      (∀ uri : String, (∀ c ∈ uri.toList, isIriChar c = true) →
        ∃ inner, p.SameUpToLabels inner ∧ inner.mentioned = q.projected ∧
          Query.read .initial (t.oneText (.iri uri)) =
            some (inner.about t.anchor (env.resolve uri))) ∧
      ∀ (condition : String) (us : List Token) (e : Expr),
        Spells ("(" ++ condition ++ ")").toList us → (constraint env).parseAll us = some e →
          ∃ inner, p.SameUpToLabels inner ∧ inner.mentioned = q.projected ∧
            Query.read .initial (t.selectedText condition) = some (inner.chosen e) := by
  obtain ⟨rfl, -⟩ := analysed_of_ofQuery hmade
  obtain ⟨p, hselect, hpattern⟩ := SelectQuery.read_ok hread
  have hinner : ∀ distance, p.SameUpToLabels (p.relabel (moveLabel distance)) ∧
      (p.relabel (moveLabel distance)).mentioned = t.query.projected := fun distance =>
    have hsame := p.sameUpToLabels_moved distance
    ⟨hsame, hsame.mentioned.trans (Query.mentioned_of_read hselect)⟩
  refine ⟨p, hselect, hpattern, read_allText hread hnamespaces hcut hselect, fun uri huri => ?_,
    fun condition us e hspells hcondition => ?_⟩
  · obtain ⟨hsame, hmentioned⟩ := hinner 2
    exact ⟨_, hsame, hmentioned, read_oneText hread hnamespaces hcut hselect hanchor huri⟩
  · obtain ⟨hsame, hmentioned⟩ := hinner (us.length + 3)
    exact ⟨_, hsame, hmentioned,
      read_selectedText hread hnamespaces hcut hselect hspells hcondition⟩

/-- Notes with a title and an author who is not named, behind a declaration. -/
def prefixedText : String :=
  "PREFIX e: <http://e/>\nSELECT ?note ?title WHERE \x7b ?note e:title ?title ; e:by [] \x7d"

def prefixedDeclarations : List Token :=
  [.word "PREFIX", .name "e" "", .iri "http://e/"]

def prefixedTokens : List Token :=
  [.word "SELECT", .var "note", .var "title", .word "WHERE", .sign "\x7b", .var "note",
    .name "e" "title", .var "title", .sign ";", .name "e" "by", .sign "[", .sign "]", .sign "\x7d"]

theorem splitText_prefixed :
    Text.trim (splitText prefixedText).1 = "PREFIX e: <http://e/>".toList ∧
      Text.trim (splitText prefixedText).2 =
        "SELECT ?note ?title WHERE \x7b ?note e:title ?title ; e:by [] \x7d".toList := by
  decide +kernel

theorem cutBehind_prefixed : CutBehind (Prologue.initial.declareAll [("x", "http://x/")])
    prefixedText prefixedDeclarations prefixedTokens
    ((Prologue.initial.declareAll [("x", "http://x/")]).declare "e" "http://e/") where
  tokens := by decide +kernel
  declared := by cbv
  own := by
    rw [splitText_prefixed.1]
    exact spells_of_cut (by decide) (by decide) (by decide +kernel) (by decide +kernel)
  body := by
    rw [splitText_prefixed.2]
    exact spells_of_cut (by decide) (by decide) (by decide +kernel) (by decide +kernel)
  graph := by cbv

def conditionTokens : List Token :=
  [.sign "(", .var "title", .sign "=", .text "a", .sign ")"]

theorem reads_texts_prefixed :
    ∃ q t p one selected e, SelectQuery.read [("x", "http://x/")] prefixedText = .ok q ∧
      ofQuery "Note" q none "http://e/" .none [] = .ok t ∧
      Query.read .initial t.allText = some (.select p q.projected) ∧
      p.SameUpToLabels one ∧
      Query.read .initial (t.oneText (.iri "http://e/n1")) =
        some (one.about t.anchor "http://e/n1") ∧
      p.SameUpToLabels selected ∧
      Query.read .initial (t.selectedText "?title = \"a\"") = some (selected.chosen e) := by
  have hdone : ((SelectQuery.read [("x", "http://x/")] prefixedText).toOption.any fun q =>
      (ofQuery "Note" q none "http://e/" .none []).toOption.any (·.anchor == "note")) = true := by
    decide +kernel
  have hnamespaces : ∀ n ∈ [("x", "http://x/")], ValidNamespace n :=
    List.forall_mem_singleton.mpr
      ⟨⟨rfl, List.all_eq_true.mp rfl, by decide⟩, List.all_eq_true.mp rfl⟩
  cases hread : SelectQuery.read [("x", "http://x/")] prefixedText with
  | error e => simp [hread, Except.toOption] at hdone
  | ok q =>
      cases hmade : ofQuery "Note" q none "http://e/" .none [] with
      | error e => simp [hread, hmade, Except.toOption] at hdone
      | ok t =>
          have hanchor : t.anchor = "note" := by
            simpa [hread, hmade, Except.toOption] using hdone
          obtain ⟨p, -, -, hall, hone, hselected⟩ := reads_texts hread hmade hnamespaces
            (hanchor ▸ ⟨rfl, List.all_eq_true.mp rfl⟩) cutBehind_prefixed
          obtain ⟨one, hsame, -, hone⟩ := hone "http://e/n1" (List.all_eq_true.mp rfl)
          have hspells : Spells ("(" ++ "?title = \"a\"" ++ ")").toList conditionTokens :=
            spells_of_cut (by decide +kernel) (by decide +kernel) (by decide +kernel)
              (by decide +kernel)
          have hcondition : (constraint ((Prologue.initial.declareAll [("x", "http://x/")]).declare
              "e" "http://e/")).parseAll conditionTokens =
                some (.call "=" [.term (.var "title"), .term (.literal (.plain "a"))]) := by
            cbv
          obtain ⟨selected, hsame', -, hselected⟩ := hselected _ _ _ hspells hcondition
          exact ⟨q, t, p, one, selected, _, rfl, hmade, hall, hsame, hone, hsame', hselected⟩

/-- Notes with a title, and a remark behind the selection. -/
def commentedText : String :=
  "SELECT ?note ?title WHERE \x7b ?note <http://e/title> ?title \x7d # all of them"

/-- A comment behind a selection goes on over the braces that are put around it. -/
theorem comment_hides_braces : ∃ q t, SelectQuery.read [] commentedText = .ok q ∧
    ofQuery "Note" q none "http://e/" .none [] = .ok t ∧
    (Query.read .initial t.allText).isSome = true ∧
    checkIri "http://e/n1" = .ok (.iri "http://e/n1") ∧
    Query.read .initial (t.oneText (.iri "http://e/n1")) = none ∧
    ((constraint .initial).parseAll conditionTokens).isSome = true ∧
    Query.read .initial (t.selectedText "?title = \"a\"") = none := by
  have hdone : ((SelectQuery.read [] commentedText).toOption.any fun q =>
      (ofQuery "Note" q none "http://e/" .none []).toOption.any fun t =>
        (Query.read .initial t.allText).isSome &&
          (Query.read .initial (t.oneText (.iri "http://e/n1"))).isNone &&
          (Query.read .initial (t.selectedText "?title = \"a\"")).isNone) = true := by
    decide +kernel
  cases hread : SelectQuery.read [] commentedText with
  | error e => simp [hread, Except.toOption] at hdone
  | ok q =>
      cases hmade : ofQuery "Note" q none "http://e/" .none [] with
      | error e => simp [hread, hmade, Except.toOption] at hdone
      | ok t =>
          simp only [hread, hmade, Except.toOption, Option.any_some, Bool.and_eq_true,
            Option.isNone_iff_eq_none] at hdone
          obtain ⟨⟨hall, hone⟩, hselected⟩ := hdone
          exact ⟨q, t, rfl, hmade, hall, rfl, hone, by decide +kernel, hselected⟩

end EntityType

end EntityMapping
