import EntityMapping.Sparql.Grammar.Queries

/-!
Parsers in front of a closing brace.

What is nested in braces stands in front of a closing brace that is not its own.  No form begins with
a closing brace, so a parser that finds its own braces closed stops there as it would stop at the end
of a text.  Two things depend on how much is left: the fuel, of which there is enough either way, and
the labels of anonymous nodes, which are renamed.
-/

namespace EntityMapping.Sparql

open Lexer (isIriChar isNameStart)

theorem Parser.manyWithin_none {α : Type} {p : Parser α} {ts : List Token} (h : p ts = none)
    (fuel : Nat) : manyWithin fuel p ts = some ([], ts) := by
  cases fuel <;> simp [manyWithin, h]

theorem Parser.manyWithin_some {α : Type} {p : Parser α} {ts rest : List Token} {a : α}
    (h : p ts = some (a, rest)) (fuel : Nat) : manyWithin (fuel + 1) p ts =
      (manyWithin fuel p rest).map fun (as, last) => (a :: as, last) := by
  simp only [manyWithin, h]

theorem Parser.between_sign {α : Type} (first last : String) (p : Parser α) (ts : List Token) :
    between first last p (.sign first :: ts) = (p ts).bind fun (a, rest) =>
      (sign last rest).map fun (_, more) => (a, more) := by
  simp only [between, bind_apply, sign_sign, if_true, Option.bind_some]
  refine Option.bind_congr fun (a, rest) _ => ?_
  cases sign last rest <;> rfl

theorem Parser.eq_cons_of_sign {s : String} {ts : List Token} {found : Unit × List Token}
    (h : sign s ts = some found) : ts = .sign s :: found.2 := by
  rcases ts with - | ⟨t, ts⟩
  · contradiction
  · by_cases ht : t = .sign s
    · subst ht
      rw [sign_sign, if_pos rfl] at h
      obtain rfl := Option.some.inj h
      rfl
    · simp [sign, ht] at h

theorem Parser.between_other {α : Type} {first : String} {ts : List Token}
    (h : ts.head? ≠ some (.sign first)) (last : String) (p : Parser α) :
    between first last p ts = none := by
  cases ts with
  | nil => rfl
  | cons t ts =>
      have ht : t ≠ .sign first := by simpa using h
      simp [between, sign, ht]

/-! ### Braces -/

/-- How many closing braces have no opening one in front of them.  There is no such number where an
opening brace is not closed. -/
def unopened : List Token → Option Nat
  | [] => some 0
  | t :: ts =>
    if t = .sign "\x7d" then (unopened ts).map (· + 1)
    else if t = .sign "\x7b" then (unopened ts).bind fun n => if n = 0 then none else some (n - 1)
    else unopened ts

/-- Whether a token is a brace. -/
def Token.IsBrace (t : Token) : Prop :=
  t = .sign "\x7b" ∨ t = .sign "\x7d"

theorem unopened_cons {t : Token} (ht : ¬t.IsBrace) (ts : List Token) :
    unopened (t :: ts) = unopened ts := by
  rw [unopened, if_neg fun h => ht (.inr h), if_neg fun h => ht (.inl h)]

theorem unopened_closing (ts : List Token) :
    unopened (.sign "\x7d" :: ts) = (unopened ts).map (· + 1) := by
  rw [unopened, if_pos rfl]

theorem unopened_opening (ts : List Token) : unopened (.sign "\x7b" :: ts) =
    (unopened ts).bind fun n => if n = 0 then none else some (n - 1) := by
  rw [unopened, if_neg (by decide), if_pos rfl]

/-- A pair of braces counts for nothing. -/
theorem unopened_between {ts rest : List Token}
    (h : unopened (.sign "\x7d" :: rest) = unopened ts) :
    unopened rest = unopened (.sign "\x7b" :: ts) := by
  rw [unopened_opening, ← h, unopened_closing]
  cases unopened rest <;> simp

/-- What tokens of a text are like: between the brackets of a reference stands what may stand there,
and labels that are written begin as names do. -/
def Token.Written : Token → Prop
  | .iri reference => ∀ c ∈ reference.toList, isIriChar c = true
  | .blank label => label.toList.head?.any (fun c => isNameStart c || c.isDigit) = true
  | _ => True

/-! ### New labels -/

/-- The label of an anonymous node at a place. -/
def anonymousLabel (place : Nat) : String :=
  "[" ++ toString place ++ "]"

/-- The label of a node of a collection. -/
def itemLabel (place index : Nat) : String :=
  "(" ++ toString place ++ ")" ++ toString index

/-- What stands behind a nested text, a closing brace first, and new labels for nodes whose labels
come from their place. -/
structure Enclosure where
  more : List Token
  rename : String → String
  written : ∀ label, (Token.blank label).Written → rename label = label
  anonymous : ∀ place, rename (anonymousLabel place) = anonymousLabel (place + (more.length + 1))
  item : ∀ place index,
    rename (itemLabel place index) = itemLabel (place + (more.length + 1)) index

namespace Enclosure

variable (F : Enclosure)

/-- All that stands behind. -/
def behind : List Token :=
  .sign "\x7d" :: F.more

/-- What the first parser reads at the end of a text, the second one reads in front of the brace, up
to a change of the result.  At least so many tokens are taken. -/
structure AgreeAt {α : Type} (least : Nat) (change : α → α) (p q : Parser α) (ts : List Token) :
    Prop where
  takes : ∀ a rest, p ts = some (a, rest) →
    unopened rest = unopened ts ∧ (∀ t ∈ rest, t.Written) ∧ supply rest + least ≤ supply ts
  reads : unopened ts ≠ none →
    q (ts ++ F.behind) = (p ts).map fun (a, rest) => (change a, rest ++ F.behind)

/-- The parsers agree on all tokens of a text that are not more than a bound. -/
def Agree {α : Type} (bound least : Nat) (change : α → α) (p q : Parser α) : Prop :=
  ∀ ts, supply ts ≤ bound → (∀ t ∈ ts, t.Written) → F.AgreeAt least change p q ts

variable {F} {α β : Type} {n m k : Nat} {φ : α → α} {ψ : β → β} {p p' q q' : Parser α}
  {f g : α → Parser β}

namespace Agree

theorem mono (h : F.Agree n k φ p q) (hm : m ≤ n) : F.Agree m k φ p q :=
  fun ts hts => h ts (Nat.le_trans hts hm)

theorem lax (h : F.Agree n 1 φ p q) : F.Agree n 0 φ p q := fun ts hn hts => by
  obtain ⟨htakes, hreads⟩ := h ts hn hts
  refine ⟨fun a rest ha => ?_, hreads⟩
  obtain ⟨hbraces, hwritten, hsupply⟩ := htakes a rest ha
  exact ⟨hbraces, hwritten, Nat.le_of_succ_le hsupply⟩

theorem pure {a b : α} (h : b = φ a) : F.Agree n 0 φ (Pure.pure a) (Pure.pure b) := by
  intro ts _ hts
  refine ⟨fun c rest hc => ?_, fun _ => ?_⟩
  · obtain ⟨rfl, rfl⟩ := Prod.mk.inj (Option.some.inj hc)
    exact ⟨rfl, hts, Nat.le_refl _⟩
  · rw [h]
    rfl

theorem failure : F.Agree n k φ (Alternative.failure : Parser α) Alternative.failure :=
  fun _ _ _ => ⟨nofun, fun _ => rfl⟩

/-- One parser and then another. -/
theorem bind_add {d d' : Nat} (hp : F.Agree n d φ p q)
    (hf : d ≤ n → ∀ a, F.Agree (n - d) d' ψ (f a) (g (φ a))) :
    F.Agree n (d + d') ψ (p >>= f) (q >>= g) := by
  intro ts hn hts
  obtain ⟨htakes, hreads⟩ := hp ts hn hts
  constructor
  · intro b rest hb
    rw [Parser.bind_apply] at hb
    obtain ⟨⟨a, mid⟩, ha, hb⟩ := Option.bind_eq_some_iff.mp hb
    obtain ⟨hbraces, hwritten, hsupply⟩ := htakes a mid ha
    obtain ⟨hbraces', hwritten', hsupply'⟩ :=
      (hf (by omega) a mid (by omega) hwritten).takes b rest hb
    exact ⟨hbraces'.trans hbraces, hwritten', by omega⟩
  · intro hclosed
    rw [Parser.bind_apply, Parser.bind_apply, hreads hclosed]
    cases ha : p ts with
    | none => rfl
    | some found =>
        obtain ⟨a, mid⟩ := found
        obtain ⟨hbraces, hwritten, hsupply⟩ := htakes a mid ha
        exact (hf (by omega) a mid (by omega) hwritten).reads (hbraces ▸ hclosed)

/-- A parser that takes something, and then another. -/
theorem bind (hp : F.Agree n 1 φ p q)
    (hf : 0 < n → ∀ a, F.Agree (n - 1) 0 ψ (f a) (g (φ a))) :
    F.Agree n 1 ψ (p >>= f) (q >>= g) :=
  bind_add hp hf

/-- A parser that may take nothing, and then another. -/
theorem after (hp : F.Agree n 0 φ p q) (hf : ∀ a, F.Agree n k ψ (f a) (g (φ a))) :
    F.Agree n k ψ (p >>= f) (q >>= g) := by
  have h := bind_add (d := 0) hp fun _ => hf
  rwa [Nat.zero_add] at h

theorem orElse (hp : F.Agree n k φ p q) (hq : F.Agree n k φ p' q') :
    F.Agree n k φ (p <|> p') (q <|> q') := by
  intro ts hn hts
  constructor
  · intro a rest ha
    rw [Parser.orElse_apply] at ha
    rcases Option.or_eq_some_iff.mp ha with ha | ⟨-, ha⟩
    · exact (hp ts hn hts).takes a rest ha
    · exact (hq ts hn hts).takes a rest ha
  · intro hclosed
    rw [Parser.orElse_apply, Parser.orElse_apply, (hp ts hn hts).reads hclosed,
      (hq ts hn hts).reads hclosed]
    cases p ts <;> rfl

theorem satisfy {test : Token → Option α} (hbraces : ∀ t : Token, t.IsBrace → test t = none)
    (hsame : ∀ t a, t.Written → test t = some a → φ a = a) :
    F.Agree n 1 φ (Parser.satisfy test) (Parser.satisfy test) := by
  intro ts _ hts
  rcases ts with - | ⟨t, ts⟩
  · refine ⟨nofun, fun _ => ?_⟩
    change (test (.sign "\x7d")).map _ = none
    rw [hbraces _ (.inr rfl)]
    rfl
  · obtain ⟨ht, hrest⟩ := List.forall_mem_cons.mp hts
    constructor
    · intro a rest ha
      obtain ⟨b, hb, hpair⟩ := Option.map_eq_some_iff.mp ha
      obtain ⟨rfl, rfl⟩ := Prod.mk.inj hpair
      have hbrace : ¬t.IsBrace := fun h => by simp [hbraces t h] at hb
      exact ⟨(unopened_cons hbrace _).symm, hrest, Nat.add_le_add_left t.supply_pos _⟩
    · intro _
      cases hb : test t with
      | none => simp [hb]
      | some b => simp [hb, hsame t b ht hb]

theorem sign {s : String} (h : ¬(Token.sign s).IsBrace) :
    F.Agree n 1 id (Parser.sign s) (Parser.sign s) := by
  refine satisfy (fun t ht => ?_) fun _ _ _ _ => rfl
  rw [if_neg]
  rintro rfl
  exact h ht

theorem keyword (word : String) : F.Agree n 1 id (Parser.keyword word) (Parser.keyword word) :=
  satisfy (by rintro t (rfl | rfl) <;> rfl) fun _ _ _ _ => rfl

theorem optionally (h : F.Agree n k φ p q) :
    F.Agree n 0 (Option.map φ) (Parser.optionally p) (Parser.optionally q) := by
  intro ts hn hts
  obtain ⟨htakes, hreads⟩ := h ts hn hts
  constructor
  · intro o rest ho
    unfold Parser.optionally at ho
    split at ho
    · next a more ha =>
        obtain ⟨rfl, rfl⟩ := Prod.mk.inj (Option.some.inj ho)
        obtain ⟨hbraces, hwritten, hsupply⟩ := htakes a _ ha
        exact ⟨hbraces, hwritten, by omega⟩
    · obtain ⟨rfl, rfl⟩ := Prod.mk.inj (Option.some.inj ho)
      exact ⟨rfl, hts, Nat.le_refl _⟩
  · intro hclosed
    unfold Parser.optionally
    rw [hreads hclosed]
    cases p ts <;> rfl

/-- Whatever fuel is left over makes no difference. -/
theorem manyWithin (h : F.Agree n 1 φ p q) {fuel fuel' : Nat} {ts : List Token}
    (hfuel : supply ts ≤ fuel) (hfuel' : supply ts ≤ fuel') (hn : supply ts ≤ n)
    (hts : ∀ t ∈ ts, t.Written) :
    F.AgreeAt 0 (List.map φ) (Parser.manyWithin fuel p) (Parser.manyWithin fuel' q) ts := by
  induction fuel generalizing fuel' ts with
  | zero =>
      obtain ⟨htakes, hreads⟩ := h ts hn hts
      have hnone : p ts = none := by
        refine Option.eq_none_iff_forall_ne_some.mpr fun found ha => ?_
        obtain ⟨-, -, hsupply⟩ := htakes found.1 found.2 ha
        omega
      rw [hnone] at hreads
      refine ⟨fun as rest has => ?_, fun hclosed => Parser.manyWithin_none (hreads hclosed) fuel'⟩
      obtain ⟨rfl, rfl⟩ := Prod.mk.inj (Option.some.inj has)
      exact ⟨rfl, hts, Nat.le_refl _⟩
  | succ fuel ih =>
      obtain ⟨htakes, hreads⟩ := h ts hn hts
      cases ha : p ts with
      | none =>
          rw [ha] at hreads
          refine ⟨fun as rest has => ?_, fun hclosed => ?_⟩
          · rw [Parser.manyWithin_none ha] at has
            obtain ⟨rfl, rfl⟩ := Prod.mk.inj (Option.some.inj has)
            exact ⟨rfl, hts, Nat.le_refl _⟩
          · rw [Parser.manyWithin_none ha, Parser.manyWithin_none (hreads hclosed)]
            rfl
      | some found =>
          obtain ⟨a, mid⟩ := found
          obtain ⟨hbraces, hwritten, hsupply⟩ := htakes a mid ha
          obtain ⟨fuel', rfl⟩ := Nat.exists_eq_succ_of_ne_zero (show fuel' ≠ 0 by omega)
          obtain ⟨htakes', hreads'⟩ : F.AgreeAt 0 (List.map φ) (Parser.manyWithin fuel p)
              (Parser.manyWithin fuel' q) mid :=
            ih (by omega) (by omega) (by omega) hwritten
          constructor
          · intro as rest has
            rw [Parser.manyWithin_some ha] at has
            obtain ⟨⟨others, last⟩, hothers, hpair⟩ := Option.map_eq_some_iff.mp has
            obtain ⟨rfl, rfl⟩ := Prod.mk.inj hpair
            obtain ⟨hbraces', hwritten', hsupply'⟩ := htakes' others last hothers
            exact ⟨hbraces'.trans hbraces, hwritten', by omega⟩
          · intro hclosed
            rw [ha] at hreads
            rw [Parser.manyWithin_some ha, Parser.manyWithin_some (hreads hclosed),
              hreads' (hbraces ▸ hclosed)]
            cases Parser.manyWithin fuel p mid <;> rfl

theorem many (h : F.Agree n 1 φ p q) :
    F.Agree n 0 (List.map φ) (Parser.many p) (Parser.many q) := by
  intro ts hn hts
  have hsupply : supply ts ≤ supply (ts ++ F.behind) := by
    rw [supply_append]
    exact Nat.le_add_right _ _
  obtain ⟨htakes, hreads⟩ := manyWithin h (Nat.le_refl _) hsupply hn hts
  exact ⟨htakes, hreads⟩

theorem optionally_id (h : F.Agree n k id p q) :
    F.Agree n 0 id (Parser.optionally p) (Parser.optionally q) := by
  rw [← Option.map_id]
  exact h.optionally

theorem many_id (h : F.Agree n 1 id p q) : F.Agree n 0 id (Parser.many p) (Parser.many q) := by
  rw [← List.map_id_fun]
  exact h.many

theorem atLeastOne (h : F.Agree n 1 φ p q) :
    F.Agree n 1 (List.map φ) (Parser.atLeastOne p) (Parser.atLeastOne q) :=
  bind h fun _ _ => after (many (h.mono (Nat.sub_le n 1))) fun _ => pure rfl

theorem separated {separator : String} (hsign : ¬(Token.sign separator).IsBrace)
    (h : F.Agree n 1 φ p q) :
    F.Agree n 1 (List.map φ) (Parser.separated separator p) (Parser.separated separator q) :=
  bind h fun _ _ => after
    (many (bind (sign hsign) fun _ _ => (h.mono (by omega)).lax)) fun _ => pure rfl

theorem separated_id {separator : String} (hsign : ¬(Token.sign separator).IsBrace)
    (h : F.Agree n 1 id p q) :
    F.Agree n 1 id (Parser.separated separator p) (Parser.separated separator q) := by
  rw [← List.map_id_fun]
  exact h.separated hsign

theorem atLeastOne_id (h : F.Agree n 1 id p q) :
    F.Agree n 1 id (Parser.atLeastOne p) (Parser.atLeastOne q) := by
  rw [← List.map_id_fun]
  exact h.atLeastOne

theorem between {first last : String} (hfirst : ¬(Token.sign first).IsBrace)
    (hlast : ¬(Token.sign last).IsBrace) (h : 0 < n → F.Agree (n - 1) 0 φ p q) :
    F.Agree n 1 φ (Parser.between first last p) (Parser.between first last q) :=
  bind (sign hfirst) fun hn _ => after (h hn) fun _ => after (sign hlast).lax fun _ => pure rfl

/-- In braces, a parser cannot mistake the brace behind the text for its own. -/
theorem braces (h : 0 < n → F.Agree (n - 1) 0 φ p q) :
    F.Agree n 1 φ (Parser.between "\x7b" "\x7d" p) (Parser.between "\x7b" "\x7d" q) := by
  intro ts hn hts
  by_cases hhead : ts.head? = some (.sign "\x7b")
  · obtain ⟨us, rfl⟩ := List.head?_eq_some_iff.mp hhead
    obtain ⟨-, hus⟩ := List.forall_mem_cons.mp hts
    have hsupply : supply (.sign "\x7b" :: us) = supply us + 1 := rfl
    obtain ⟨htakes, hreads⟩ := h (by omega) us (by omega) hus
    constructor
    · intro a rest ha
      rw [Parser.between_sign] at ha
      obtain ⟨⟨b, mid⟩, hb, ha⟩ := Option.bind_eq_some_iff.mp ha
      obtain ⟨last, hlast, hpair⟩ := Option.map_eq_some_iff.mp ha
      obtain ⟨rfl, rfl⟩ := Prod.mk.inj hpair
      obtain rfl := Parser.eq_cons_of_sign hlast
      obtain ⟨hbraces, hwritten, hless⟩ := htakes b _ hb
      have hmid : supply (.sign "\x7d" :: last.2) = supply last.2 + 1 := rfl
      exact ⟨unopened_between hbraces, (List.forall_mem_cons.mp hwritten).2, by omega⟩
    · intro hclosed
      have hinner : unopened us ≠ none ∧ unopened us ≠ some 0 := by
        rw [unopened_opening] at hclosed
        constructor <;> intro hus <;> simp [hus] at hclosed
      rw [List.cons_append, Parser.between_sign, Parser.between_sign, hreads hinner.1]
      cases ha : p us with
      | none => rfl
      | some found =>
          obtain ⟨a, mid⟩ := found
          obtain ⟨hbraces, -, -⟩ := htakes a mid ha
          rcases mid with - | ⟨t, mid⟩
          · exact absurd hbraces.symm hinner.2
          · by_cases ht : t = .sign "\x7d" <;> simp [Parser.sign, ht]
  · refine ⟨fun a rest ha => ?_, fun _ => ?_⟩
    · rw [Parser.between_other hhead] at ha
      contradiction
    · rw [Parser.between_other hhead, Parser.between_other]
      · rfl
      · cases ts with
        | nil => simp [behind]
        | cons t ts => exact hhead

theorem remaining : F.Agree n 0 (· + (F.more.length + 1)) Parser.remaining Parser.remaining := by
  intro ts _ hts
  refine ⟨fun a rest ha => ?_, fun _ => ?_⟩
  · obtain ⟨rfl, rfl⟩ := Prod.mk.inj (Option.some.inj ha)
    exact ⟨rfl, hts, Nat.le_refl _⟩
  · simp [Parser.remaining, behind]

/-- What depends on how much is supplied agrees if it agrees whatever is supplied. -/
theorem supplied {f g : Nat → Parser β}
    (h : ∀ m ≤ n, F.Agree m k ψ (f m) (g (m + supply F.behind))) :
    F.Agree n k ψ (Parser.supplied >>= f) (Parser.supplied >>= g) := by
  intro ts hn hts
  obtain ⟨htakes, hreads⟩ := h (supply ts) hn ts (Nat.le_refl _) hts
  refine ⟨htakes, fun hclosed => ?_⟩
  have hall := hreads hclosed
  rw [← supply_append] at hall
  exact hall

end Agree

end Enclosure

end EntityMapping.Sparql
