import EntityMapping.Proofs.Entity.Draft
import EntityMapping.Proofs.Template.Calls

/-!
The slots of the templates of a type.

Templates name their slots after the variables of the query, and a slot ends where its name stops
being made of ASCII letters, digits and underscores.  So the slots of a template are its variables
exactly if all of these are such names.  Then a template whose slots are all filled has no variable
left: it is an insertion of statements about one term.
-/

namespace EntityMapping

open Sparql (Prologue Token Update)
open Sparql.Lexer

/-! ### The slots of a text -/

namespace Piece

/-- The names of the slots in a text, in order. -/
def slotNames (cs : List Char) : List String :=
  (within cs.length cs).filterMap slotName?

theorem slotNames_slot {mark : Char} (hmark : mark = '?' ∨ mark = '$') {name rest : List Char}
    (h : IsSlotName name) (hrest : rest.head?.any isSlotPart = false) :
    slotNames (mark :: name ++ rest) = String.ofList name :: slotNames rest := by
  have hbehind : within (name ++ rest).length rest = within rest.length rest :=
    within_length (by simp) (Nat.le_refl _)
  rw [slotNames, List.cons_append, List.length_cons, within, takeLong_slot hmark h hrest]
  simp only [hbehind, List.filterMap_cons, slotName?]
  rfl

theorem isSlotName_of_takeLong {c mark : Char} {rest name behind : List Char}
    (h : takeLong c rest = some (.slot mark name, behind)) : IsSlotName name := by
  unfold takeLong at h
  split at h
  · obtain ⟨found, -, hpair⟩ := Option.map_eq_some_iff.mp h
    exact Piece.noConfusion (Prod.mk.inj hpair).1
  · split at h
    · obtain ⟨found, -, hpair⟩ := Option.map_eq_some_iff.mp h
      exact Piece.noConfusion (Prod.mk.inj hpair).1
    · split at h
      · next hslot =>
          rw [Bool.and_eq_true] at hslot
          obtain ⟨hpiece, -⟩ := Prod.mk.inj (Option.some.inj h)
          obtain ⟨-, rfl⟩ := Piece.slot.inj hpiece
          refine ⟨?_, fun d hd => ?_⟩
          · rcases rest with - | ⟨d, rest⟩
            · exact absurd hslot.2 (by decide)
            · have hstart : isSlotStart d = true := hslot.2
              have hpart : isSlotPart d = true := by
                simp only [isSlotStart, Bool.or_eq_true] at hstart
                rcases hstart with halpha | hscore
                · simp [isSlotPart, Char.isAlphanum, halpha]
                · simp [isSlotPart, hscore]
              simp [hpart, hstart]
          · exact List.all_eq_true.mp List.all_takeWhile d hd
      · contradiction

theorem isSlotName_of_mem_within {fuel : Nat} {cs name : List Char} {mark : Char}
    (h : .slot mark name ∈ within fuel cs) : IsSlotName name := by
  induction fuel generalizing cs with
  | zero => exact absurd h List.not_mem_nil
  | succ fuel ih =>
      rcases cs with - | ⟨c, rest⟩
      · exact absurd h List.not_mem_nil
      · rw [within] at h
        cases hlong : takeLong c rest with
        | none =>
            rw [hlong] at h
            rcases List.mem_cons.mp h with hpiece | h
            · exact Piece.noConfusion hpiece
            · exact ih h
        | some found =>
            obtain ⟨piece, behind⟩ := found
            rw [hlong] at h
            rcases List.mem_cons.mp h with rfl | h
            · exact isSlotName_of_takeLong hlong
            · exact ih h

end Piece

theorem Kept.slotNames {text rest : List Char} (h : Kept text rest) :
    Piece.slotNames (text ++ rest) = Piece.slotNames rest := by
  obtain ⟨pieces, hslots, -, hpieces⟩ := h
  have hnone : pieces.filterMap Piece.slotName? = [] := List.filterMap_eq_nil_iff.mpr hslots
  rw [Piece.slotNames, hpieces, List.filterMap_append, hnone]
  rfl

theorem kept_iri {s : List Char} (h : ∀ c ∈ s, isIriBreaker c = false) (rest : List Char) :
    Kept ('<' :: (s ++ ['>'])) rest := by
  apply kept_verbatim
  rw [List.append_assoc]
  exact Piece.takeLong_iri h rest

namespace Template

theorem mem_slots {text name : String} :
    name ∈ (ofText text).slots ↔ name ∈ Piece.slotNames text.toList :=
  List.mem_eraseDups

/-- Whatever is a slot has the name of one. -/
theorem isSlot_of_mem_slots {text name : String} (h : name ∈ (ofText text).slots) :
    IsSlot name := by
  obtain ⟨piece, hpiece, hname⟩ := List.mem_filterMap.mp (mem_slots.mp h)
  cases piece with
  | verbatim s => contradiction
  | slot mark s =>
      obtain rfl := Option.some.inj hname
      rw [IsSlot, String.toList_ofList]
      exact Piece.isSlotName_of_mem_within hpiece

end Template

/-! ### The text of an insertion -/

/-- Statements with slots for the anchor and the properties, each with a blank in front, and the
closing brace. -/
def statementsText (anchor : String) : List Property → List Char
  | [] => [' ', '\x7d']
  | p :: ps =>
    ' ' :: ('?' :: anchor.toList ++ ' ' :: ('<' :: ((p.predicate.getD "").toList ++ ['>']) ++
      ' ' :: ('?' :: p.name.toList ++ ' ' :: '.' :: statementsText anchor ps)))

/-- The template that adds a value of each of some properties. -/
def insertionText (anchor : String) (ps : List Property) : List Char :=
  "INSERT DATA \x7b".toList ++ statementsText anchor ps

/-- The names that stand in such a template. -/
def insertionNames (anchor : String) (ps : List Property) : List String :=
  if ps.isEmpty then [] else anchor :: ps.map Property.name

theorem mem_insertionNames {anchor name : String} {ps : List Property} :
    name ∈ insertionNames anchor ps ↔ name ∈ ps.flatMap fun p => [anchor, p.name] := by
  unfold insertionNames
  cases ps with
  | nil => simp
  | cons p ps => 
      simp only [List.isEmpty_cons, Bool.false_eq_true, if_false, List.mem_cons, List.mem_map,
        List.mem_flatMap, List.not_mem_nil, or_false]
      constructor
      · rintro (rfl | ⟨q, hq, rfl⟩)
        · exact ⟨p, Or.inl rfl, Or.inl rfl⟩
        · exact ⟨q, hq, Or.inr rfl⟩
      · rintro ⟨q, hq, rfl | rfl⟩
        · exact Or.inl rfl
        · exact Or.inr ⟨q, hq, rfl⟩

section Text

variable {s : Synthesis} {ps : List Property} {texts : List String}

/-- The triples of properties are statements of predicates that pass the check. -/
theorem statements_of_mapM
    (h : ps.mapM (fun p => s.tripleText p.name (p.predicate.getD "")) = .ok texts) :
    (∀ p ∈ ps, AcceptedIri (p.predicate.getD "")) ∧ (texts.isEmpty = ps.isEmpty) ∧
      texts.flatMap (fun text => ' ' :: text.toList) ++ [' ', '\x7d'] =
        statementsText s.anchor ps := by
  replace h := forall₂_of_mapM h
  induction h with
  | nil => exact ⟨by simp, rfl, rfl⟩
  | cons htext _ ih =>
      obtain ⟨haccepted, -, hstatements⟩ := ih
      obtain ⟨iri, hiri, htext⟩ := bind_eq_ok.mp htext
      obtain ⟨rfl, hfirst⟩ := checkIri_ok hiri
      obtain rfl := pure_eq_ok.mp htext
      refine ⟨List.forall_mem_cons.mpr ⟨hfirst, haccepted⟩, rfl, ?_⟩
      rw [List.flatMap_cons, List.append_assoc, hstatements]
      simp [statementsText, Term.n3]

theorem toList_intercalate (text : String) (texts : List String) :
    ' ' :: (" ".intercalate (text :: texts)).toList =
      (text :: texts).flatMap fun text => ' ' :: text.toList := by
  induction texts generalizing text with
  | nil => simp
  | cons next texts ih =>
      rw [String.intercalate_cons_of_ne_nil (List.cons_ne_nil next texts), String.toList_append,
        String.toList_append, List.append_assoc, List.flatMap_cons, ← ih next]
      rfl

theorem toList_insertion (hne : texts ≠ [])
    (h : texts.flatMap (fun text => ' ' :: text.toList) ++ [' ', '\x7d'] =
      statementsText s.anchor ps) :
    ("INSERT DATA \x7b " ++ " ".intercalate texts ++ " \x7d").toList =
      insertionText s.anchor ps := by
  obtain ⟨text, texts, rfl⟩ := List.exists_cons_of_ne_nil hne
  have hjoined := toList_intercalate text texts
  generalize " ".intercalate (text :: texts) = joined at hjoined ⊢
  have htext : insertionText s.anchor ps =
      "INSERT DATA \x7b".toList ++ statementsText s.anchor ps := rfl
  rw [String.toList_append, String.toList_append, List.append_assoc, htext, ← h, ← hjoined]
  rfl
end Text

/-! ### Its slots and its tokens -/

section Shape

variable {anchor : String} {ps : List Property}

theorem not_isIriBreaker_of_accepted {s : String} (h : AcceptedIri s) :
    ∀ c ∈ s.toList, isIriBreaker c = false := fun c hc =>
  Bool.eq_false_iff.mpr (List.any_eq_false.mp (accepted_iff.mp h).2 c hc)

theorem slotNames_plain {c : Char} (hc : Piece.isPlain c = true) (rest : List Char) :
    Piece.slotNames (c :: rest) = Piece.slotNames rest :=
  have hall : [c].all Piece.isPlain = true := by simp [hc]
  (kept_plain hall rest).slotNames

/-- The slots of statements are the names in them, if these are names of slots. -/
theorem slotNames_statements
    (hps : ∀ p ∈ ps, IsSlot anchor ∧ IsSlot p.name ∧ AcceptedIri (p.predicate.getD "")) :
    Piece.slotNames (statementsText anchor ps) = ps.flatMap fun p => [anchor, p.name] := by
  induction ps with
  | nil => rfl
  | cons p ps ih =>
      obtain ⟨⟨hanchor, hname, hpredicate⟩, hrest⟩ := List.forall_mem_cons.mp hps
      have hkept := kept_iri (not_isIriBreaker_of_accepted hpredicate)
      have hspace : Piece.isPlain ' ' = true := rfl
      have hpoint : Piece.isPlain '.' = true := rfl
      rw [statementsText, slotNames_plain hspace, Piece.slotNames_slot (.inl rfl) hanchor rfl,
        slotNames_plain hspace, (hkept _).slotNames, slotNames_plain hspace,
        Piece.slotNames_slot (.inl rfl) hname rfl, slotNames_plain hspace, slotNames_plain hpoint,
        ih hrest, String.ofList_toList, String.ofList_toList]
      rfl

theorem slotNames_insertion
    (hps : ∀ p ∈ ps, IsSlot anchor ∧ IsSlot p.name ∧ AcceptedIri (p.predicate.getD "")) :
    Piece.slotNames (insertionText anchor ps) = ps.flatMap fun p => [anchor, p.name] :=
  have hopening : "INSERT DATA \x7b".toList.all Piece.isPlain = true := by decide
  (kept_plain hopening _).slotNames.trans (slotNames_statements hps)

/-- The tokens of statements, for the tokens of the names in them. -/
def statementTokens (shown : String → List Token) (anchor : String) (ps : List Property) :
    List Token :=
  ps.flatMap fun p => shown anchor ++ .iri (p.predicate.getD "") :: (shown p.name ++ [.sign "."])

/-- The tokens of an insertion of statements. -/
def insertionTokens (shown : String → List Token) (anchor : String) (ps : List Property) :
    List Token :=
  [.word "INSERT", .word "DATA", .sign "\x7b"] ++ statementTokens shown anchor ps ++ [.sign "\x7d"]

/-- A text whose slots are its variables, with its tokens. -/
structure SlottedAs (cs : List Char) (ts : List Token) : Prop where
  slotted : Slotted cs
  cuts : Cuts cs ts

namespace SlottedAs

variable {rest : List Char} {ts : List Token}

theorem space (h : SlottedAs rest ts) : SlottedAs (' ' :: rest) ts :=
  ⟨.space rfl h.slotted, cuts_gap (.inl rfl) h.cuts⟩

theorem slot {name : String} (hname : IsSlot name) (hrest : Stops isSlotAdhesive rest)
    (h : SlottedAs rest ts) : SlottedAs ('?' :: name.toList ++ rest) (.var name :: ts) := by
  refine ⟨.slot (.inl rfl) hname hrest h.slotted, ?_⟩
  have hvar : Stops isVarPart rest := hrest.mono fun c hc => by simp [isSlotAdhesive, hc]
  have htake := takeToken_slot (.inl rfl) hname hvar
  rw [String.ofList_toList] at htake
  exact cuts_token ⟨by decide, by decide⟩ (by simp) htake h.cuts

theorem iri {s : String} (haccepted : AcceptedIri s) (hclean : (Term.iri s).Clean)
    (h : SlottedAs rest ts) : SlottedAs ('<' :: (s.toList ++ ['>']) ++ rest) (.iri s :: ts) := by
  have htake : takeToken ('<' :: (s.toList ++ ['>']) ++ rest) = some (.iri s, rest) := by
    rw [List.cons_append, List.append_assoc]
    exact takeToken_iri (isIriChar_of_accepted haccepted hclean) rest
  have hkept := kept_iri (not_isIriBreaker_of_accepted haccepted) rest
  exact ⟨.token htake nofun hkept nofun h.slotted,
    cuts_token ⟨by decide, by decide⟩ (by simp; omega) htake h.cuts⟩

theorem word (c : Char) (word : List Char) (t : Token) (hc : Begins c)
    (hplain : (c :: word).all Piece.isPlain = true)
    (htake : takeToken (c :: word ++ rest) = some (t, rest)) (hvar : ∀ name, t ≠ .var name)
    (h : SlottedAs rest ts) : SlottedAs (c :: word ++ rest) (t :: ts) :=
  ⟨.plain hplain htake hvar h.slotted, cuts_token hc (by simp) htake h.cuts⟩

end SlottedAs

theorem slotted_statements
    (hps : ∀ p ∈ ps, IsSlot anchor ∧ IsSlot p.name ∧ AcceptedIri (p.predicate.getD "") ∧
      (Term.iri (p.predicate.getD "")).Clean) :
    SlottedAs (statementsText anchor ps)
      (statementTokens (fun name => [.var name]) anchor ps ++ [.sign "\x7d"]) := by
  induction ps with
  | nil =>
      have hend : SlottedAs [] [] := ⟨.nothing, cuts_nil⟩
      exact .space (hend.word '\x7d' [] (.sign "\x7d") ⟨by decide, by decide⟩ (by decide) rfl nofun)
  | cons p ps ih =>
      obtain ⟨⟨hanchor, hname, hpredicate, hclean⟩, hrest⟩ := List.forall_mem_cons.mp hps
      have hpoint : SlottedAs ('.' :: statementsText anchor ps)
          (.sign "." :: (statementTokens (fun name => [.var name]) anchor ps ++ [.sign "\x7d"])) := by
        refine (ih hrest).word '.' [] (.sign ".") ⟨by decide, by decide⟩ (by decide) ?_ nofun
        cases ps <;> rfl
      exact .space (.slot hanchor rfl (.space (.iri hpredicate hclean
        (.space (.slot hname rfl (.space hpoint))))))

/-- A template whose names are names of slots has these for its only variables. -/
theorem slotted_insertion
    (hps : ∀ p ∈ ps, IsSlot anchor ∧ IsSlot p.name ∧ AcceptedIri (p.predicate.getD "") ∧
      (Term.iri (p.predicate.getD "")).Clean) :
    SlottedAs (insertionText anchor ps)
      (insertionTokens (fun name => [.var name]) anchor ps) := by
  have hopening := (slotted_statements hps).word '\x7b' [] (.sign "\x7b")
    ⟨by decide, by decide⟩ (by decide) (by cases ps <;> rfl) nofun
  have hdata := hopening.space.word 'D' ['A', 'T', 'A'] (.word "DATA") ⟨by decide, by decide⟩
    (by decide) rfl nofun
  exact hdata.space.word 'I' ['N', 'S', 'E', 'R', 'T'] (.word "INSERT") ⟨by decide, by decide⟩
    (by decide) rfl nofun

/-- What a template is cut into when the tokens of terms take the place of its variables. -/
theorem flatMap_insertionTokens (bound : String → Option Term) :
    (insertionTokens (fun name => [.var name]) anchor ps).flatMap (tokensFor bound) =
      insertionTokens (fun name => (bound name).elim [.var name] Term.tokens) anchor ps := by
  have hstatements : (statementTokens (fun name => [.var name]) anchor ps).flatMap
      (tokensFor bound) =
        statementTokens (fun name => (bound name).elim [.var name] Term.tokens) anchor ps := by
    unfold statementTokens
    rw [List.flatMap_assoc]
    refine List.flatMap_congr fun p _ => ?_
    simp [tokensFor]
  rw [insertionTokens, List.flatMap_append, List.flatMap_append, hstatements]
  rfl

/-- Where no variable is shown, none is among the tokens. -/
theorem var_not_mem_insertionTokens {shown : String → List Token}
    (h : ∀ name ∈ insertionNames anchor ps, ∀ other, .var other ∉ shown name) (other : String) :
    .var other ∉ insertionTokens shown anchor ps := by
  simp only [insertionTokens, statementTokens, List.mem_append, List.mem_flatMap, List.mem_cons,
    List.not_mem_nil, or_false, reduceCtorEq, false_or, not_exists, not_and]
  intro p hp hmem
  have hanchor : anchor ∈ insertionNames anchor ps :=
    mem_insertionNames.mpr (List.mem_flatMap.mpr ⟨p, hp, List.mem_cons_self⟩)
  have hname : p.name ∈ insertionNames anchor ps :=
    mem_insertionNames.mpr (List.mem_flatMap.mpr ⟨p, hp, by simp⟩)
  rcases hmem with hmem | hmem
  · exact h anchor hanchor other hmem
  · exact h p.name hname other hmem

end Shape

theorem Term.var_not_mem_tokens {t : Term} (h : t.Bindable) (name : String) :
    .var name ∉ t.tokens := by
  cases t with
  | iri s => simp [tokens]
  | literal l =>
      simp only [tokens, Literal.tokens, Literal.suffixTokens]
      rcases l.language with _ | tag
      · rcases l.datatype with _ | datatype
        · simp
        · by_cases hempty : datatype.isEmpty <;> simp [hempty]
      · simp
  | blank label => exact h.elim
  | var other => exact h.elim

/-- What calls leave in the place of a variable. -/
def Template.shown (calls : List Template.Call) (name : String) : List Token :=
  (Template.bound calls name).elim [.var name] Term.tokens

namespace EntityType

/-- A template that adds a value of each of some properties.  Its slots are the names in it exactly
if all of them are names of slots.  Then filling all slots leaves an insertion of statements without
a variable, which inserts what was filled in where terms are read as they are written. -/
structure Inserts (t : EntityType) (ps : List Property) (text : String) : Prop where
  slots_iff : (∀ name, name ∈ (Template.ofText text).slots ↔ name ∈ insertionNames t.anchor ps) ↔
    ∀ name ∈ insertionNames t.anchor ps, IsSlot name
  ground : (∀ name ∈ insertionNames t.anchor ps, IsSlot name) →
    (∀ p ∈ ps, (Term.iri (p.predicate.getD "")).Clean) → ∀ calls filled,
      (Template.ofText text).applyAll calls = .ok filled →
      (∀ name ∈ (Template.ofText text).slots, (Template.bound calls name).isSome = true) →
      (∀ name v, Template.bound calls name = some v → v.Clean) →
      cut filled.render.toList = some (insertionTokens (Template.shown calls) t.anchor ps) ∧
        ∀ name, .var name ∉ insertionTokens (Template.shown calls) t.anchor ps
  performs : (∀ name ∈ insertionNames t.anchor ps, IsSlot name) → ∀ env uri o,
    env.base = none → ValidIri uri →
      (∀ p ∈ ps, ValidIri (p.predicate.getD "") ∧ (o p.name).Writable) → ∀ calls filled,
        (Template.ofText text).applyAll calls = .ok filled →
        Template.bound calls t.anchor = some (.iri uri) →
        (∀ p ∈ ps, Template.bound calls p.name = some (o p.name)) →
        Change.Performs env filled.render fun g => g.insertAll (factTriples uri (factsOf o ps))

variable {t : EntityType} {ps : List Property} {text : String}

theorem inserts_of_mapM (h : t.Regular) {texts : List String}
    (htexts : ps.mapM (fun p => t.synthesis.tripleText p.name (p.predicate.getD "")) = .ok texts)
    (htext : text = if texts.isEmpty then "INSERT DATA \x7b \x7d"
      else "INSERT DATA \x7b " ++ " ".intercalate texts ++ " \x7d") : t.Inserts ps text := by
  obtain ⟨haccepted, hempty, hstatements⟩ := statements_of_mapM htexts
  have hlist : text.toList = insertionText t.anchor ps := by
    cases hps : ps with
    | nil =>
        rw [htext, if_pos (hempty.trans (by rw [hps]; rfl))]
        rfl
    | cons p rest =>
        have hnot : texts.isEmpty = false := hempty.trans (by rw [hps]; rfl)
        rw [htext, if_neg (by simp [hnot]), ← hps, ← h.anchor]
        exact toList_insertion (List.isEmpty_eq_false_iff.mp hnot) hstatements
  have hslots : (∀ name ∈ insertionNames t.anchor ps, IsSlot name) →
      ∀ p ∈ ps, IsSlot t.anchor ∧ IsSlot p.name ∧ AcceptedIri (p.predicate.getD "") := by
    intro hnames p hp
    simp only [mem_insertionNames, List.mem_flatMap] at hnames
    exact ⟨hnames _ ⟨p, hp, List.mem_cons_self⟩, hnames _ ⟨p, hp, by simp⟩, haccepted p hp⟩
  have hexact : (∀ name ∈ insertionNames t.anchor ps, IsSlot name) →
      ∀ name, name ∈ (Template.ofText text).slots ↔ name ∈ insertionNames t.anchor ps := by
    intro hnames name
    rw [Template.mem_slots, hlist, slotNames_insertion (hslots hnames), mem_insertionNames]
  constructor
  · refine ⟨fun hslots name hname => ?_, hexact⟩
    exact Template.isSlot_of_mem_slots ((hslots name).mpr hname)
  · intro hnames hpredicates calls filled hcalls hbound hclean
    have hshape := slotted_insertion fun p hp =>
      have hp' := hslots hnames p hp
      ⟨hp'.1, hp'.2.1, hp'.2.2, hpredicates p hp⟩
    rw [← hlist] at hshape
    have hcut := Template.cut_render hshape.slotted hshape.cuts.cut_eq hcalls hclean
    rw [flatMap_insertionTokens] at hcut
    refine ⟨hcut, var_not_mem_insertionTokens fun name hname other => ?_⟩
    obtain ⟨v, hv⟩ := Option.isSome_iff_exists.mp (hbound name ((hexact hnames name).mpr hname))
    rw [Template.shown, hv]
    exact Term.var_not_mem_tokens (Template.bindable_of_bound hv) other
  · intro hnames env uri o hbase huri hps calls filled hcalls hanchor hvalues
    obtain ⟨htextOf, hlookup⟩ := Template.applyAll_eq_ok hcalls
    have hbindings : ∀ name, filled.bindings.lookup name = Template.bound calls name := fun name => by
      rw [hlookup, Template.bindings_ofText, List.lookup_nil, Option.or_none]
    have hfilled : Piece.filled filled.bindings text.toList = insertion uri (factsOf o ps) := by
      by_cases hnil : ps = []
      · rw [htext, if_pos (hempty.trans (by rw [hnil]; rfl)), hnil]
        exact filled_insertion_nil
      · obtain ⟨p, hp⟩ := List.exists_mem_of_ne_nil ps hnil
        obtain ⟨hne, hall⟩ := filled_insertion (h.anchor ▸ (hslots hnames p hp).1)
          ((hbindings _).trans (h.anchor ▸ hanchor)) (fun q hq => ⟨(hslots hnames q hq).2.1,
            (hps q hq).1, (hbindings _).trans (hvalues q hq)⟩) hnil htexts
        rwa [htext, if_neg (by simpa using hne)]
    obtain ⟨steps, hread, hcarries⟩ := reads_insertion hbase huri
      fun fact (hfact : fact ∈ factsOf o ps) => by
        obtain ⟨p, hp, rfl⟩ := List.mem_map.mp hfact
        exact hps p hp
    refine ⟨steps, ?_, hcarries⟩
    rwa [Template.toList_render, htextOf, Template.text_ofText, hfilled]

/-- Where the predicates of a type pass the check it has a template for creation, which is for its
mandatory variables, and one for each of its variables that can be written.  The slots of each are
its variables exactly if these are names of slots, and then filling the slots leaves none of them. -/
theorem exists_templates {name : String} {q : SelectQuery} {anchor : Option String}
    {namespaceIri : String} {hints : SchemaHints} {overrides : List (String × Override)}
    (ht : ofQuery name q anchor namespaceIri hints overrides = .ok t)
    (haccepted : ∀ p ∈ t.properties, ∀ predicate, p.predicate = some predicate →
      AcceptedIri predicate) :
    t.synthesis.mandatory = t.mandatoryProperties.map Property.name ∧
      (∃ text, t.synthesis.creation = .ok text ∧ t.Inserts t.mandatoryProperties text) ∧
      ∀ p ∈ t.properties, p.isWritable = true →
        ∃ text, t.synthesis.initializer p.name = .ok text ∧ t.Inserts [p] text := by
  have h := regular_of_ofQuery ht
  have htriple : ∀ p ∈ t.properties, ∀ predicate, p.predicate = some predicate →
      ∃ text, t.synthesis.tripleText p.name predicate = .ok text := by
    intro p hp predicate hpredicate
    exact ⟨_, bind_eq_ok.mpr ⟨_, haccepted p hp predicate hpredicate, rfl⟩⟩
  refine ⟨h.mandatory_eq, ?_, fun p hp hwritable => ?_⟩
  · obtain ⟨texts, htexts⟩ := exists_mapM_ok.mpr fun p (hp : p ∈ t.mandatoryProperties) => by
      obtain ⟨hmem, -, hwritable⟩ := mem_mandatoryProperties hp
      obtain ⟨predicate, hpredicate⟩ := Option.isSome_iff_exists.mp hwritable
      have hsome := htriple p hmem predicate hpredicate
      rwa [← Option.getD_some (a := predicate) (b := ""), ← hpredicate] at hsome
    refine ⟨_, ?_, inserts_of_mapM h htexts rfl⟩
    rw [Synthesis.creation, h.mandatoryTriples_eq, htexts]
    rfl
  · obtain ⟨predicate, hpredicate⟩ := Option.isSome_iff_exists.mp hwritable
    obtain ⟨text, htext⟩ := htriple p hp predicate hpredicate
    have htexts : [p].mapM (fun p => t.synthesis.tripleText p.name (p.predicate.getD "")) =
        .ok [text] := by
      simp only [List.mapM_cons, List.mapM_nil, hpredicate, Option.getD_some, htext]
      rfl
    refine ⟨"INSERT DATA \x7b " ++ text ++ " \x7d", ?_, inserts_of_mapM h htexts ?_⟩
    · rw [h.initializer_eq hp hpredicate, htext]
      rfl
    · rw [if_neg (by simp), String.intercalate_singleton]

def sizedText : String :=
  "SELECT ?note ?size ?by WHERE \x7b " ++
    "?note <http://e/size> ?size OPTIONAL \x7b ?note <http://e/by> ?by \x7d \x7d"

def sizedPattern : Sparql.Algebra :=
  .project (.leftJoin (.bgp [.plain (.var "note") (.iri "http://e/size") (.var "size")])
    (.bgp [.plain (.var "note") (.iri "http://e/by") (.var "by")]) none) ["note", "size", "by"]

def sizedType : EntityType where
  name := "Note"
  query := ⟨sizedText, "", sizedText, ["note", "size", "by"], .ofAlgebra sizedPattern⟩
  anchor := "note"
  namespaceIri := "http://e/"
  properties := [⟨"size", .literal, .one, some "http://e/size", "Literal"⟩,
    ⟨"by", .literal, .optional, some "http://e/by", "Literal"⟩]
  synthesis := ⟨"note", [("size", ⟨true, false, "Literal", false, some "http://e/size"⟩),
    ("by", ⟨true, true, "Literal", false, some "http://e/by"⟩)]⟩

theorem exists_templates_sized :
    EntityType.ofQuery "Note" sizedType.query none "http://e/" .none [] = .ok sizedType ∧
    sizedType.synthesis.mandatory = ["size"] ∧
      (∃ text, sizedType.synthesis.creation = .ok text ∧
        sizedType.Inserts sizedType.mandatoryProperties text) ∧
      ∀ p ∈ sizedType.properties, p.isWritable = true →
        ∃ text, sizedType.synthesis.initializer p.name = .ok text ∧ sizedType.Inserts [p] text := by
  have hmade : EntityType.ofQuery "Note" sizedType.query none "http://e/" .none [] =
      .ok sizedType := rfl
  have haccepted : ∀ p ∈ sizedType.properties, ∀ predicate, p.predicate = some predicate →
      AcceptedIri predicate := by
    intro p hp predicate hpredicate
    simp only [sizedType, List.mem_cons, List.not_mem_nil, or_false] at hp
    rcases hp with rfl | rfl <;> obtain rfl := Option.some.inj hpredicate <;> rfl
  exact ⟨hmade, exists_templates hmade haccepted⟩

/-! ### Names that are no slots -/

/-- A query with a name that is not made of ASCII letters. -/
def umlautText : String :=
  "SELECT ?note ?größe WHERE \x7b ?note <http://e/size> ?größe \x7d"

/-- What is filled in for the note and for the slot that is there. -/
def umlautCalls : List Template.Call :=
  [.iri "note" "http://e/n1", .literal "gr" (.datum (.text "a")) none]

/-- The slots of a template stop in the middle of such a name.  What is left of the name stays behind
the term when all slots are filled. -/
theorem creation_cuts_names :
    ∃ q t text filled, SelectQuery.read [] umlautText = .ok q ∧
      ofQuery "Note" q (some "note") "http://e/" .none [] = .ok t ∧
      (∀ p ∈ t.properties, ∀ predicate, p.predicate = some predicate → AcceptedIri predicate) ∧
      t.synthesis.mandatory = ["größe"] ∧ t.synthesis.creation = .ok text ∧
      t.synthesis.initializer "größe" = .ok text ∧
      (Template.ofText text).slots = ["note", "gr"] ∧
      (Template.ofText text).applyAll umlautCalls = .ok filled ∧
      filled.render = "INSERT DATA \x7b <http://e/n1> <http://e/size> \"a\"öße . \x7d" ∧
      Update.read .initial filled.render = none := by
  have hfound : ((SelectQuery.read [] umlautText).toOption.any fun q =>
      (ofQuery "Note" q (some "note") "http://e/" .none []).toOption.any fun t =>
        (t.properties.all fun p => p.predicate.all fun predicate => decide (AcceptedIri predicate)) &&
          t.synthesis.mandatory == ["größe"] &&
            [t.synthesis.creation, t.synthesis.initializer "größe"].all fun text => text == .ok
              "INSERT DATA \x7b ?note <http://e/size> ?größe . \x7d") = true := by
    decide +kernel
  cases hread : SelectQuery.read [] umlautText with
  | error e => simp [hread, Except.toOption] at hfound
  | ok q =>
      cases hmade : ofQuery "Note" q (some "note") "http://e/" .none [] with
      | error e => simp [hread, hmade, Except.toOption] at hfound
      | ok t =>
          simp only [hread, hmade, Except.toOption, Option.any_some, Bool.and_eq_true,
            List.all_eq_true, Option.all_eq_true, decide_eq_true_eq, beq_iff_eq] at hfound
          obtain ⟨⟨haccepted, hmandatory⟩, htexts⟩ := hfound
          exact ⟨q, t, _, _, rfl, hmade, haccepted, hmandatory, htexts _ List.mem_cons_self,
            htexts _ (List.mem_cons_of_mem _ List.mem_cons_self), by decide +kernel, rfl,
            by decide +kernel, by decide +kernel⟩

end EntityType

end EntityMapping
