import EntityMapping.Change

/-!
What filling the slots of a template makes of its text.

The text is filled from the left, piece by piece, so filling can be followed along the text: plain
characters and bracketed IRIs stay, and a slot is replaced as a whole.
-/

namespace EntityMapping.Piece

theorem takeBracketed_text {cs body behind : List Char}
    (h : takeBracketed cs = some (body, behind)) : cs = body ++ behind := by
  unfold takeBracketed at h
  split at h
  · next rest hrest =>
      obtain ⟨rfl, rfl⟩ := Prod.mk.inj (Option.some.inj h)
      have hcs := List.takeWhile_append_dropWhile (p := fun c => !isIriBreaker c) (l := cs)
      rw [hrest] at hcs
      rw [List.append_assoc]
      exact hcs.symm
  · contradiction

theorem takeQuoted_text {quote : Char} {cs body behind : List Char}
    (h : takeQuoted quote cs = some (body, behind)) : cs = body ++ behind := by
  induction cs using takeQuoted.induct quote generalizing body behind with
  | case1 => simp [takeQuoted] at h
  | case2 c rest hline => simp [takeQuoted, hline] at h
  | case3 c rest hline ih =>
      simp only [takeQuoted, if_neg hline, Option.map_eq_some_iff] at h
      obtain ⟨⟨inner, more⟩, hinner, hpair⟩ := h
      obtain ⟨rfl, rfl⟩ := Prod.mk.inj hpair
      rw [ih hinner]
      rfl
  | case4 c rest hnext hquote =>
      rw [takeQuoted, if_pos hquote] at h
      · obtain ⟨rfl, rfl⟩ := Prod.mk.inj (Option.some.inj h)
        rfl
      · exact hnext
  | case5 c rest hnext hquote hbreak =>
      rw [takeQuoted, if_neg hquote, if_pos hbreak] at h
      · contradiction
      · exact hnext
  | case6 c rest hnext hquote hbreak ih =>
      rw [takeQuoted, if_neg hquote, if_neg hbreak, Option.map_eq_some_iff] at h
      · obtain ⟨⟨inner, more⟩, hinner, hpair⟩ := h
        obtain ⟨rfl, rfl⟩ := Prod.mk.inj hpair
        rw [ih hinner]
        rfl
      · exact hnext

/-- The mark of a slot, and nothing of a piece of another kind. -/
def HasMark : Piece → Prop
  | .verbatim _ => True
  | .slot mark _ => mark = '?' ∨ mark = '$'

/-- A longer piece begins with its character, and the text is that of the piece and what is
behind. -/
theorem takeLong_text {c : Char} {rest behind : List Char} {piece : Piece}
    (h : takeLong c rest = some (piece, behind)) :
    ∃ body, piece.text = c :: body ∧ rest = body ++ behind ∧ piece.HasMark := by
  unfold takeLong at h
  split at h
  · obtain ⟨⟨body, more⟩, hbody, hpair⟩ := Option.map_eq_some_iff.mp h
    obtain ⟨rfl, rfl⟩ := Prod.mk.inj hpair
    exact ⟨body, rfl, takeBracketed_text hbody, trivial⟩
  · split at h
    · obtain ⟨⟨body, more⟩, hbody, hpair⟩ := Option.map_eq_some_iff.mp h
      obtain ⟨rfl, rfl⟩ := Prod.mk.inj hpair
      exact ⟨body, rfl, takeQuoted_text hbody, trivial⟩
    · split at h
      · next hslot =>
          obtain ⟨rfl, rfl⟩ := Prod.mk.inj (Option.some.inj h)
          simp only [Bool.and_eq_true, Bool.or_eq_true, beq_iff_eq] at hslot
          exact ⟨_, rfl, List.takeWhile_append_dropWhile.symm, hslot.1⟩
      · contradiction

theorem takeLong_length {c : Char} {rest behind : List Char} {piece : Piece}
    (h : takeLong c rest = some (piece, behind)) : behind.length ≤ rest.length := by
  obtain ⟨body, -, rfl, -⟩ := takeLong_text h
  rw [List.length_append]
  exact Nat.le_add_left _ _

/-- The length of a text is enough fuel, and more changes nothing. -/
theorem within_length {n m : Nat} {cs : List Char} (hn : cs.length ≤ n) (hm : cs.length ≤ m) :
    within n cs = within m cs := by
  induction n generalizing m cs with
  | zero =>
      obtain rfl := List.eq_nil_of_length_eq_zero (Nat.le_zero.1 hn)
      cases m <;> rfl
  | succ n ih =>
      rcases cs with - | ⟨c, rest⟩
      · cases m <;> rfl
      · obtain ⟨m, rfl⟩ := Nat.exists_eq_succ_of_ne_zero
          (Nat.ne_of_gt (Nat.lt_of_lt_of_le (Nat.succ_pos _) hm))
        simp only [List.length_cons, Nat.succ_eq_add_one, Nat.add_le_add_iff_right] at hn hm
        simp only [within]
        cases hlong : takeLong c rest with
        | none => simp only [ih hn hm]
        | some found =>
            obtain ⟨piece, behind⟩ := found
            have hle := takeLong_length hlong
            simp only [ih (Nat.le_trans hle hn) (Nat.le_trans hle hm)]

/-- A text with its bound slots filled. -/
def filled (bindings : List (String × Term)) (cs : List Char) : List Char :=
  (within cs.length cs).flatMap (fill bindings)

variable {bindings : List (String × Term)}

/-- One piece is filled, and then what stands behind it. -/
theorem filled_cons (c : Char) (rest : List Char) :
    filled bindings (c :: rest) =
      match takeLong c rest with
      | some (piece, behind) => piece.fill bindings ++ filled bindings behind
      | none => c :: filled bindings rest := by
  rw [filled, List.length_cons, within]
  cases hlong : takeLong c rest with
  | none => rfl
  | some found =>
      obtain ⟨piece, behind⟩ := found
      simp only [List.flatMap_cons, filled, within_length (takeLong_length hlong) (Nat.le_refl _)]

/-- Whether a character begins no longer piece. -/
def isPlain (c : Char) : Bool :=
  !(['<', '"', '\'', '?', '$'].contains c)

theorem takeLong_plain {c : Char} (hc : isPlain c = true) (rest : List Char) :
    takeLong c rest = none := by
  simp only [isPlain, List.contains_cons, List.contains_nil, Bool.or_false, Bool.not_eq_true',
    Bool.or_eq_false_iff] at hc
  obtain ⟨hbracket, hdouble, hsingle, hquestion, hdollar⟩ := hc
  simp [takeLong, hbracket, hdouble, hsingle, hquestion, hdollar]

/-- Plain text stays. -/
theorem filled_plain {cs : List Char} (h : cs.all isPlain = true) (rest : List Char) :
    filled bindings (cs ++ rest) = cs ++ filled bindings rest := by
  induction cs with
  | nil => rfl
  | cons c cs ih =>
      simp only [List.all_cons, Bool.and_eq_true] at h
      rw [List.cons_append, filled_cons, takeLong_plain h.1]
      simp only [ih h.2, List.cons_append]

/-- A name that is a slot as a whole. -/
def IsSlotName (name : List Char) : Prop :=
  name.head?.any isSlotStart = true ∧ ∀ c ∈ name, isSlotPart c = true

theorem isSlotName_of_all {name : List Char} (hstart : name.head?.any isSlotStart = true)
    (hall : name.all isSlotPart = true) : IsSlotName name :=
  ⟨hstart, List.all_eq_true.mp hall⟩

/-- A slot ends where no character continues its name. -/
theorem takeLong_slot {mark : Char} (hmark : mark = '?' ∨ mark = '$') {name rest : List Char}
    (h : IsSlotName name) (hrest : rest.head?.any isSlotPart = false) :
    takeLong mark (name ++ rest) = some (.slot mark name, rest) := by
  have hstart : (name ++ rest).head?.any isSlotStart = true := by
    rcases name with - | ⟨c, name⟩
    · exact absurd h.1 (by decide)
    · exact h.1
  have hbehind : rest.takeWhile isSlotPart = [] ∧ rest.dropWhile isSlotPart = rest := by
    rcases rest with - | ⟨c, rest⟩
    · exact ⟨rfl, rfl⟩
    · have hc : isSlotPart c = false := hrest
      simp [hc]
  have hslot : takeLong mark (name ++ rest) =
      if (name ++ rest).head?.any isSlotStart then
        some (.slot mark ((name ++ rest).takeWhile isSlotPart),
          (name ++ rest).dropWhile isSlotPart)
      else none := by
    rcases hmark with rfl | rfl
    · rfl
    · rfl
  rw [hslot, if_pos hstart, List.takeWhile_append_of_pos h.2, List.dropWhile_append_of_pos h.2,
    hbehind.1, hbehind.2, List.append_nil]

/-- A slot is filled with what is bound to its name. -/
theorem filled_slot {mark : Char} (hmark : mark = '?' ∨ mark = '$') {name rest : List Char}
    (h : IsSlotName name) (hrest : rest.head?.any isSlotPart = false) :
    filled bindings (mark :: name ++ rest) =
      (Piece.slot mark name).fill bindings ++ filled bindings rest := by
  rw [List.cons_append, filled_cons, takeLong_slot hmark h hrest]

/-- A bracketed IRI ends at its first bracket. -/
theorem takeLong_iri {s : List Char} (h : ∀ c ∈ s, isIriBreaker c = false) (rest : List Char) :
    takeLong '<' (s ++ '>' :: rest) = some (.verbatim ('<' :: (s ++ ['>'])), rest) := by
  have hkeep : ∀ c ∈ s, (!isIriBreaker c) = true := fun c hc => by rw [h c hc]; rfl
  have hclosing : isIriBreaker '>' = true := by decide
  have hbracket : takeLong '<' (s ++ '>' :: rest) = (takeBracketed (s ++ '>' :: rest)).map
      fun found => (.verbatim ('<' :: found.1), found.2) := rfl
  rw [hbracket, takeBracketed, List.dropWhile_append_of_pos hkeep,
    List.takeWhile_append_of_pos hkeep]
  simp [hclosing]

/-- A bracketed IRI stays. -/
theorem filled_iri {s : List Char} (h : ∀ c ∈ s, isIriBreaker c = false) (rest : List Char) :
    filled bindings ('<' :: s ++ '>' :: rest) = '<' :: s ++ '>' :: filled bindings rest := by
  rw [List.cons_append, filled_cons, takeLong_iri h]
  simp [fill]

end EntityMapping.Piece

namespace EntityMapping.Template

theorem toList_render (t : Template) : t.render.toList = Piece.filled t.bindings t.text.toList := by
  rw [render, String.toList_ofList]
  rfl

@[simp] theorem text_bind (t : Template) (name : String) (term : Term) :
    (t.bind name term).text = t.text := rfl

@[simp] theorem text_ofText (s : String) : (ofText s).text = s := rfl

@[simp] theorem bindings_ofText (s : String) : (ofText s).bindings = [] := rfl

end EntityMapping.Template
