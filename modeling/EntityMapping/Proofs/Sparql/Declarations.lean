import EntityMapping.Proofs.Sparql.Enclosed.Wrapped
import EntityMapping.SelectQuery

/-!
Declarations in front of a query.

Whatever stands behind them, declarations are read one after the other and leave the same prefixes
and the same base in force.  They may be written on lines of their own, in front of others.
-/

namespace EntityMapping.Sparql.Grammar

open Sparql.Parser

variable {env env' last : Prologue} {ts us : List Token}

/-! ### Tokens of declarations -/

/-- Tokens of declarations, and what is in force in front of them and behind them. -/
inductive Declares : Prologue → List Token → Prologue → Prop where
  | nothing (env : Prologue) : Declares env [] env
  | base {env last : Prologue} {word reference : String} {ts : List Token}
      (hword : word.toUpper = "BASE") (rest : Declares { env with base := some reference } ts last) :
      Declares env (.word word :: .iri reference :: ts) last
  | label {env last : Prologue} {word label reference : String} {ts : List Token}
      (hword : word.toUpper = "PREFIX")
      (rest : Declares (env.declare label (env.resolve reference)) ts last) :
      Declares env (.word word :: .name label "" :: .iri reference :: ts) last

theorem satisfy_eq_some {α : Type} {test : Token → Option α} {a : α}
    (h : satisfy test ts = some (a, us)) : ∃ t, ts = t :: us ∧ test t = some a := by
  rcases ts with - | ⟨t, ts⟩
  · contradiction
  · obtain ⟨b, hb, hpair⟩ := Option.map_eq_some_iff.mp h
    obtain ⟨rfl, rfl⟩ := Prod.mk.inj hpair
    exact ⟨t, rfl, hb⟩

theorem keyword_eq_some {word : String} {found : Unit}
    (h : keyword word ts = some (found, us)) : ∃ w, ts = .word w :: us ∧ w.toUpper = word := by
  obtain ⟨t, rfl, ht⟩ := satisfy_eq_some h
  cases t with
  | word w =>
      dsimp only at ht
      split at ht
      · next hword => exact ⟨w, rfl, hword⟩
      · contradiction
  | _ => contradiction

theorem Declares.append (h : Declares env ts env') (hrest : Declares env' us last) :
    Declares env (ts ++ us) last := by
  induction h with
  | nothing env => exact hrest
  | base hword rest ih => exact .base hword (ih hrest)
  | label hword rest ih => exact .label hword (ih hrest)

/-- One declaration, by the tokens that it takes. -/
theorem declares_of_declaration (h : declaration env ts = some (env', us)) :
    ∃ ds, ts = ds ++ us ∧ ∀ {vs last}, Declares env' vs last → Declares env (ds ++ vs) last := by
  rcases Option.or_eq_some_iff.mp ((orElse_apply _ _ ts).symm.trans h) with h | ⟨-, h⟩
  · obtain ⟨found, rest, hkeyword, h⟩ := bind_eq_some.mp h
    obtain ⟨reference, more, hreference, h⟩ := bind_eq_some.mp h
    obtain ⟨rfl, rfl⟩ := Prod.mk.inj (Option.some.inj h)
    obtain ⟨word, rfl, hword⟩ := keyword_eq_some hkeyword
    obtain ⟨t, rfl, ht⟩ := satisfy_eq_some hreference
    cases t with
    | iri reference =>
        obtain rfl := Option.some.inj ht
        exact ⟨[_, _], rfl, .base hword⟩
    | _ => contradiction
  · obtain ⟨found, rest, hkeyword, h⟩ := bind_eq_some.mp h
    obtain ⟨label, more, hlabel, h⟩ := bind_eq_some.mp h
    obtain ⟨reference, behind, hreference, h⟩ := bind_eq_some.mp h
    obtain ⟨rfl, rfl⟩ := Prod.mk.inj (Option.some.inj h)
    obtain ⟨word, rfl, hword⟩ := keyword_eq_some hkeyword
    obtain ⟨t, rfl, ht⟩ := satisfy_eq_some hlabel
    obtain ⟨u, rfl, hu⟩ := satisfy_eq_some hreference
    cases t with
    | name label localName =>
        cases u with
        | iri reference =>
            obtain rfl := Option.some.inj hu
            dsimp only at ht
            split at ht
            · next hlocal =>
                obtain rfl := Option.some.inj ht
                exact ⟨[_, _, _], rfl, fun hrest => hlocal ▸ .label hword hrest⟩
            · contradiction
        | _ => contradiction
    | _ => contradiction

/-- Declarations are read to their end, where no further one begins. -/
theorem Declares.prologueWithin_eq (h : Declares env ts last) (hus : declaration last us = none)
    {fuel : Nat} (hfuel : ts.length ≤ fuel) :
    prologueWithin fuel env (ts ++ us) = some (last, us) := by
  induction h generalizing fuel with
  | nothing env => cases fuel <;> simp [prologueWithin, optionally, hus]
  | base hword rest ih =>
      obtain ⟨fuel, rfl⟩ := Nat.exists_eq_add_of_le' (Nat.le_trans (Nat.le_add_left 1 _) hfuel)
      have hmore : prologueWithin fuel _ _ = _ := ih hus (by simp at hfuel; omega)
      simp [prologueWithin, optionally, declaration, hword, hmore]
  | label hword rest ih =>
      obtain ⟨fuel, rfl⟩ := Nat.exists_eq_add_of_le' (Nat.le_trans (Nat.le_add_left 1 _) hfuel)
      have hmore : prologueWithin fuel _ _ = _ := ih hus (by simp at hfuel; omega)
      simp [prologueWithin, optionally, declaration, hword, hmore]

theorem declares_of_prologueWithin {fuel : Nat} (h : prologueWithin fuel env ts = some (last, us)) :
    ∃ ds, ts = ds ++ us ∧ Declares env ds last := by
  induction fuel generalizing env ts with
  | zero =>
      obtain ⟨rfl, rfl⟩ := Prod.mk.inj (Option.some.inj h)
      exact ⟨[], rfl, .nothing env⟩
  | succ fuel ih =>
      cases hfirst : declaration env ts with
      | none =>
          simp only [prologueWithin, bind_apply, optionally, hfirst, Option.bind_some,
            pure_apply] at h
          obtain ⟨rfl, rfl⟩ := Prod.mk.inj (Option.some.inj h)
          exact ⟨[], rfl, .nothing env⟩
      | some found =>
          obtain ⟨next, rest⟩ := found
          simp only [prologueWithin, bind_apply, optionally, hfirst, Option.bind_some] at h
          obtain ⟨ds, rfl, hds⟩ := ih h
          obtain ⟨cs, rfl, hcs⟩ := declares_of_declaration hfirst
          exact ⟨cs ++ ds, (List.append_assoc ..).symm, hcs hds⟩

/-! ### Queries behind declarations -/

/-- No declaration begins with another word. -/
theorem declaration_word {word : String} (h : word.toUpper ≠ "BASE" ∧ word.toUpper ≠ "PREFIX") :
    declaration env (.word word :: ts) = none := by
  simp [declaration, h.1, h.2]

/-- What stands behind the declarations of a selection is the selection. -/
theorem selectQuery_of_query {p : Algebra} {names : List String} {rest : List Token}
    (hprologue : prologue env ts = some (last, us))
    (h : query env ts = some (.select p names, rest)) :
    selectQuery last us = some (.select p names, rest) := by
  have h : (selectQuery last <|> constructQuery last <|> describeQuery last <|> askQuery last) us =
      some (.select p names, rest) := by
    rwa [query, bind_apply, hprologue] at h
  rw [orElse_apply] at h
  have hother : (constructQuery last <|> describeQuery last <|> askQuery last).Yields
      fun q => ∀ p names, q ≠ .select p names := by
    refine .orElse ?_ (.orElse ?_ ?_)
    · exact .after fun _ => .after fun _ => .pure nofun
    · exact .after fun _ => .after fun _ => .after fun _ => .after fun _ => .after fun _ =>
        .pure nofun
    · exact .after fun _ => .after fun _ => .after fun _ => .after fun _ => .after fun _ =>
        .pure nofun
  rcases Option.or_eq_some_iff.mp h with h | ⟨-, h⟩
  · exact h
  · exact absurd rfl (hother _ _ _ h p names)

/-- Declarations before a query are in force in it. -/
theorem Declares.query_eq {p : Algebra} {names : List String} (h : Declares env ts last)
    (hus : selectQuery last us = some (.select p names, [])) :
    query env (ts ++ us) = some (.select p names, []) := by
  have hnone : declaration last us = none := by
    obtain ⟨fuel, vs, hfuel, hselect⟩ := bind_eq_some.mp hus
    obtain ⟨rfl, rfl⟩ := Prod.mk.inj (Option.some.inj hfuel)
    obtain ⟨found, rest, hkeyword, -⟩ := bind_eq_some.mp hselect
    obtain ⟨word, rfl, hword⟩ := keyword_eq_some hkeyword
    exact declaration_word (by rw [hword]; decide)
  have hprologue : prologue env (ts ++ us) = some (last, us) :=
    h.prologueWithin_eq hnone (by simp)
  simp [query, hprologue, hus]

end EntityMapping.Sparql.Grammar

namespace EntityMapping.Sparql.Lexer

open Sparql.Grammar

/-! ### Texts of declarations -/

/-- A text that gives the tokens in front of any word. -/
def Leads (cs : List Char) (ts : List Token) : Prop :=
  ∀ word us, Spells word us → Spells (cs ++ word) (ts ++ us)

theorem leads_nil : Leads [] [] :=
  fun _ _ h => h

theorem Leads.append {cs ds : List Char} {ts us : List Token} (h : Leads cs ts)
    (h' : Leads ds us) : Leads (cs ++ ds) (ts ++ us) := fun word vs hword => by
  rw [List.append_assoc, List.append_assoc]
  exact h _ _ (h' _ _ hword)

/-- Words with a gap behind them. -/
theorem Spells.leads {cs : List Char} {ts : List Token} (h : Spells cs ts) {c : Char}
    (hc : IsGap c) : Leads (cs ++ [c]) ts := fun word us hword => by
  rw [List.append_assoc]
  exact h.append hword hc

/-- A prefix that may be declared: it begins with a letter, and points stand inside only. -/
def ValidLabel (label : String) : Prop :=
  label.toList.head?.all isNameBase = true ∧
    (∀ c ∈ label.toList, (c == '.' || isNamePart c) = true) ∧ label.toList.getLast? ≠ some '.'

theorem takePointed_all {p : Char → Bool} {cs rest : List Char}
    (hcs : ∀ c ∈ cs, (c == '.' || p c) = true) (hlast : cs.getLast? ≠ some '.')
    (hrest : Stops (fun c => c == '.' || p c) rest) : takePointed p (cs ++ rest) = (cs, rest) := by
  have hpoints : cs.reverse.takeWhile (· == '.') = [] := by
    rw [← List.head?_reverse] at hlast
    rcases hds : cs.reverse with - | ⟨c, ds⟩
    · rfl
    · have hc : (c == '.') = false := by simpa [hds] using hlast
      rw [List.takeWhile_cons, hc]
      rfl
  rw [takePointed, takeRun_of_all hcs hrest]
  simp [splitFinalPoints, hpoints]

/-- No digit is a letter. -/
theorem isDigit_of_isNameBase {c : Char} (h : isNameBase c = true) : c.isDigit = false := by
  have hdigits : ∀ n < 58, 48 ≤ n → isNameBase (Char.ofNat n) = false := by decide +kernel
  refine Bool.eq_false_iff.mpr fun hdigit => ?_
  obtain ⟨hleast, hgreatest⟩ := Char.isDigit_iff_toNat.mp hdigit
  have hc := hdigits c.toNat (Nat.lt_succ_of_le hgreatest) hleast
  rw [Char.ofNat_toNat, h] at hc
  contradiction

/-- What begins with a letter is a name. -/
theorem takeToken_name {c : Char} {cs : List Char} (h : isNameBase c = true) :
    takeToken (c :: cs) = takeName (c :: cs) := by
  have hne : ∀ d ∈ '_' :: '.' :: leaders, c ≠ d := by
    have hmarks : ('_' :: '.' :: leaders).all (!isNameBase ·) = true := rfl
    rintro d hd rfl
    have hc := List.all_eq_true.mp hmarks c hd
    rw [h] at hc
    contradiction
  have hnumber : startsNumber (c :: cs) = false := by
    have hpoint : (c == '.') = false := beq_false_of_ne (hne '.' (by decide))
    cases cs <;> simp [startsNumber, isDigit_of_isNameBase h, hpoint]
  have hstart : isNameStart c = true := by rw [isNameStart, h, Bool.or_true]
  rw [takeToken_other (fun hmem => hne c (by simp [hmem]) rfl)
    (fun hscore => hne '_' (by decide) hscore.1), hnumber, hstart]
  rfl

theorem spells_label {label : String} (h : ValidLabel label) :
    Spells (label.toList ++ [':']) [.name label ""] := by
  obtain ⟨hfirst, hparts, hlast⟩ := h
  have hmark : ∀ c, (c == '.' || isNamePart c) = false → c ≠ ':' → c ∉ label.toList ++ [':'] := by
    intro c hc hcolon hmem
    rcases List.mem_append.mp hmem with hmem | hmem
    · exact Bool.noConfusion ((hparts c hmem).symm.trans hc)
    · exact hcolon (List.mem_singleton.mp hmem)
  have hkind : ∀ rest, takeToken (label.toList ++ ':' :: rest) =
      takeName (label.toList ++ ':' :: rest) := by
    rcases hlabel : label.toList with - | ⟨c, cs⟩
    · exact fun rest => rfl
    · rw [hlabel] at hfirst
      exact fun rest => takeToken_name hfirst
  have htake : ∀ rest, Detached rest →
      takeToken (label.toList ++ [':'] ++ rest) = some (.name label "", rest) := by
    intro rest hrest
    have hlocal : takeLocal rest = ([], rest) := by
      cases hrest with
      | nothing => rfl
      | gap hc rest => rcases hc with rfl | rfl <;> rfl
    rw [List.append_assoc, List.singleton_append, hkind,
      takeName_colon (takePointed_all hparts hlast rfl), hlocal, String.ofList_toList]
  obtain ⟨c, cs, hcs⟩ := List.exists_cons_of_ne_nil (List.concat_ne_nil ':' label.toList)
  have hbegins : Begins c := by
    have hend := htake [] .nothing
    rw [List.append_nil, hcs] at hend
    exact begins_of_takeToken hend
  exact spells_token (hmark _ (by decide) (by decide)) (hmark _ (by decide) (by decide))
    (by rw [hcs]; rfl) hbegins htake

theorem Spells.eq_nil {ts : List Token} (h : Spells [] ts) : ts = [] :=
  Option.some.inj ((tokens_eq_some h).symm.trans rfl)

end EntityMapping.Sparql.Lexer

namespace EntityMapping.SelectQuery

open Sparql Sparql.Lexer Sparql.Grammar

/-- A prefix with a namespace that it may be declared for. -/
def ValidNamespace (n : String × String) : Prop :=
  ValidLabel n.1 ∧ ∀ c ∈ n.2.toList, isIriChar c = true

/-- The tokens of the lines that declare prefixes. -/
def declarationTokens (namespaces : List (String × String)) : List Token :=
  namespaces.flatMap fun (label, iri) => [.word "PREFIX", .name label "", .iri iri]

theorem leads_declarationLine {label iri : String} (h : ValidNamespace (label, iri)) :
    Leads (declarationLine label iri).toList [.word "PREFIX", .name label "", .iri iri] := by
  have hword : Spells "PREFIX".toList [.word "PREFIX"] :=
    spells_of_takeToken (by decide) rfl ⟨by decide, by decide⟩ rfl
      (by rintro c rest (rfl | rfl) <;> rfl)
  have hspace : IsGap ' ' := .inl rfl
  have hline := (hword.append ((spells_label h.1).append (spells_reference h.2) hspace)
    hspace).leads (.inr rfl)
  have htext : (declarationLine label iri).toList = "PREFIX".toList ++ ' ' ::
      (label.toList ++ [':'] ++ ' ' :: (Term.iri iri).n3.toList) ++ ['\n'] := by
    simp [declarationLine, Term.n3]
  rw [htext]
  exact hline

theorem leads_declarationText {namespaces : List (String × String)} {own : List Char}
    {ts : List Token} (hnamespaces : ∀ n ∈ namespaces, ValidNamespace n)
    (hown : Spells (Text.trim own) ts) :
    Leads (declarationText namespaces own).toList (declarationTokens namespaces ++ ts) := by
  have hlines : Leads (String.join (namespaces.map fun n => declarationLine n.1 n.2)).toList
      (declarationTokens namespaces) := by
    induction namespaces with
    | nil => exact leads_nil
    | cons n namespaces ih =>
        obtain ⟨hfirst, hothers⟩ := List.forall_mem_cons.mp hnamespaces
        rw [List.map_cons, String.join_cons, String.toList_append]
        exact (leads_declarationLine hfirst).append (ih hothers)
  rw [declarationText, String.toList_append]
  refine hlines.append ?_
  split
  · next hempty =>
      have hnil : Text.trim own = [] := by simpa using hempty
      rw [hnil] at hown
      rw [hown.eq_nil]
      exact leads_nil
  · rw [String.toList_append, String.toList_ofList]
    exact hown.leads (.inr rfl)

theorem declares_namespaces {env : Prologue} (hbase : env.base = none)
    (namespaces : List (String × String)) :
    Declares env (declarationTokens namespaces) (env.declareAll namespaces) := by
  induction namespaces generalizing env with
  | nil => exact .nothing env
  | cons n namespaces ih =>
      refine .label (toUpper_eq (by decide)) ?_
      rw [resolve_of_base hbase]
      exact ih hbase

end EntityMapping.SelectQuery
