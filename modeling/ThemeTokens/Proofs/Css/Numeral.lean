import ThemeTokens.Proofs.Css.Ending

/-! # Numbers in front of endings

    Neither a digit nor a sign, a point or the letter of an exponent begins an
    ending, nor is one of them a comma, so each part of a number ends in front of
    either where it would end without it. -/

namespace ThemeTokens.Css

section Numerals

variable {w : List Char}

/-! ## The parts of a number -/

/-- No breaker is a sign. -/
theorem sign?_append (hw : Breaks w) (u : List Char) : sign? (u ++ w) = sign? u := by
  cases u with
  | nil =>
      cases w with
      | nil => rfl
      | cons c w =>
          have hplus := hw.head_eq_false (P := (· == '+')) (by decide) c rfl
          have hminus := hw.head_eq_false (P := (· == '-')) (by decide) c rfl
          rw [List.nil_append, sign?, if_neg]
          · rfl
          · rintro (rfl | rfl)
            · cases hplus
            · cases hminus
  | cons c u => rfl

/-- A run of digits is over in front of a breaker. -/
theorem takeWhile_isDigit_append (hw : Breaks w) (u : List Char) :
    (u ++ w).takeWhile Char.isDigit = u.takeWhile Char.isDigit :=
  takeWhile_append_of_head (hw.head_eq_false (by decide)) u

/-- No breaker is a digit. -/
theorem isDigit_of_breaks {c : Char} (hw : Breaks (c :: w)) : c.isDigit = false :=
  hw.head_eq_false (by decide) c rfl

/-- A fraction is over in front of a breaker, and a point alone begins none
    there. -/
theorem fraction?_append (hw : Breaks w) (u : List Char) : fraction? (u ++ w) = fraction? u := by
  have hne : ∀ {c : Char}, c ≠ '.' → ∀ cs, fraction? (c :: cs) = none := by
    intro c hc cs
    rw [fraction?]
    intro d rest h
    exact absurd (List.cons.inj h).1 hc
  rcases u with _ | ⟨c, _ | ⟨d, u⟩⟩
  · cases w with
    | nil => rfl
    | cons c w =>
        refine hne ?_ w
        rintro rfl
        exact absurd (hw.head_eq_false (P := (· == '.')) (by decide) '.' rfl) (by decide)
  · by_cases hc : c = '.'
    · rw [hc]
      cases w with
      | nil => rfl
      | cons d w =>
          rw [List.singleton_append, fraction?, isDigit_of_breaks hw]
          rfl
    · rw [List.singleton_append, hne hc, hne hc]
  · by_cases hc : c = '.'
    · rw [hc, List.cons_append, List.cons_append, fraction?, fraction?, ← List.cons_append,
        takeWhile_isDigit_append hw]
    · rw [List.cons_append, hne hc, hne hc]

/-- Without its letter there is no exponent. -/
theorem exponent?_of_ne {c : Char} (h : ¬ (c = 'e' ∨ c = 'E')) (cs : List Char) :
    exponent? (c :: cs) = none := by
  match cs with
  | [] => rfl
  | [d] => rw [exponent?, if_neg (fun hc => h hc.1)]
  | s :: d :: cs => rw [exponent?, if_neg h]

/-- No sign and no digit: what cannot go on an exponent. -/
theorem not_sign_of_breaks {c : Char} (hw : Breaks (c :: w)) : ¬ (c = '+' ∨ c = '-') := by
  rintro (rfl | rfl)
  · exact absurd (hw.head_eq_false (P := (· == '+')) (by decide) '+' rfl) (by decide)
  · exact absurd (hw.head_eq_false (P := (· == '-')) (by decide) '-' rfl) (by decide)

/-- An exponent is over in front of a breaker: neither its letter nor its sign nor a
    digit of it comes from there. -/
theorem exponent?_append (hw : Breaks w) (u : List Char) : exponent? (u ++ w) = exponent? u := by
  -- An exponent is seen in three characters: each of them may be the first one of `w`.
  match u, w with
  | u, [] => rw [List.append_nil]
  | [], c :: w =>
      refine exponent?_of_ne ?_ w
      rintro (rfl | rfl)
      · exact absurd (hw.head_eq_false (P := (· == 'e')) (by decide) 'e' rfl) (by decide)
      · exact absurd (hw.head_eq_false (P := (· == 'E')) (by decide) 'E' rfl) (by decide)
  | [c], [s] =>
      rw [List.singleton_append, exponent?, isDigit_of_breaks hw, if_neg (by simp)]
      rfl
  | [c], s :: d :: w =>
      have hs : ¬ s.isDigit = true := by simp [isDigit_of_breaks hw]
      have hsign : ¬ ((s = '+' ∨ s = '-') ∧ d.isDigit = true) :=
        fun h => not_sign_of_breaks hw h.1
      rw [List.singleton_append, exponent?, if_neg hs, if_neg hsign, ite_self]
      rfl
  | [c, s], d :: w =>
      have hd := isDigit_of_breaks hw
      rw [List.cons_append, List.singleton_append, exponent?, exponent?, hd]
      by_cases hc : c = 'e' ∨ c = 'E'
      · by_cases hs : s.isDigit = true
        · rw [if_pos hc, if_pos hs, if_pos ⟨hc, hs⟩, List.takeWhile_cons_of_pos hs,
            List.takeWhile_cons_of_neg (by simp [hd])]
        · rw [if_pos hc, if_neg hs, if_neg (by simp), if_neg (fun h => hs h.2)]
      · rw [if_neg hc, if_neg (fun h => hc h.1)]
  | c :: s :: d :: u, e :: w =>
      have hs := takeWhile_isDigit_append hw (s :: d :: u)
      have hd := takeWhile_isDigit_append hw (d :: u)
      rw [List.cons_append] at hs hd
      rw [List.cons_append] at hs
      rw [List.cons_append, List.cons_append, List.cons_append, exponent?, exponent?, hs, hd]

/-! ## How long a number is -/

theorem length_takeWhile_le (P : Char → Bool) (u : List Char) :
    (u.takeWhile P).length ≤ u.length :=
  (List.takeWhile_prefix P).length_le

/-- What is left of a number behind its sign. -/
def afterSign (cs : List Char) : List Char :=
  cs.drop (sign? cs).toList.length

/-- What is left of a number behind its whole digits. -/
def afterWhole (cs : List Char) : List Char :=
  (afterSign cs).drop ((afterSign cs).takeWhile Char.isDigit).length

/-- A fraction as it was written. -/
def fractionRaw (cs : List Char) : List Char :=
  match fraction? cs with
  | some digits => '.' :: digits
  | none => []

/-- What is left of a number behind its fraction. -/
def afterFraction (cs : List Char) : List Char :=
  (afterWhole cs).drop (fractionRaw (afterWhole cs)).length

/-- An exponent as it was written. -/
def exponentRaw (cs : List Char) : List Char :=
  match exponent? cs with
  | some (raw, _) => raw
  | none => []

/-- How long a number is. -/
def numeralSize (cs : List Char) : Nat :=
  (sign? cs).toList.length + ((afterSign cs).takeWhile Char.isDigit).length
    + (fractionRaw (afterWhole cs)).length + (exponentRaw (afterFraction cs)).length

/-- A number, put together from its parts. -/
theorem numeral_eq (cs : List Char) :
    numeral cs
      = (⟨sign? cs, (afterSign cs).takeWhile Char.isDigit, fraction? (afterWhole cs),
          (exponent? (afterFraction cs)).map Prod.snd⟩,
        cs.take (numeralSize cs), cs.drop (numeralSize cs)) := rfl

/-- A sign is part of the text. -/
theorem length_sign? (u : List Char) : (sign? u).toList.length ≤ u.length := by
  cases u with
  | nil => exact Nat.le_refl 0
  | cons c u =>
      rw [sign?]
      split
      · exact Nat.succ_le_succ (Nat.zero_le u.length)
      · exact Nat.zero_le _

/-- The digits of a fraction are part of the text, with a point in front of them. -/
theorem length_fraction? {u digits : List Char} (h : fraction? u = some digits) :
    digits.length < u.length := by
  unfold fraction? at h
  split at h
  · split at h
    · rw [← Option.some.inj h]
      exact Nat.lt_succ_of_le (length_takeWhile_le _ _)
    · cases h
  · cases h

theorem length_fractionRaw (u : List Char) : (fractionRaw u).length ≤ u.length := by
  rw [fractionRaw]
  split
  · rename_i digits h
    exact length_fraction? h
  · exact Nat.zero_le _

/-- An exponent is part of the text. -/
theorem length_exponent? {u raw : List Char} {x : Bool × List Char}
    (h : exponent? u = some (raw, x)) : raw.length ≤ u.length := by
  unfold exponent? at h
  split at h
  · rename_i e s d cs
    have hs := length_takeWhile_le Char.isDigit (s :: d :: cs)
    have hd := length_takeWhile_le Char.isDigit (d :: cs)
    split at h
    · split at h
      · cases h
        exact Nat.succ_le_succ hs
      · split at h
        · cases h
          exact Nat.succ_le_succ (Nat.succ_le_succ hd)
        · cases h
    · cases h
  · split at h
    · cases h
      exact Nat.le_refl 2
    · cases h
  · cases h

theorem length_exponentRaw (u : List Char) : (exponentRaw u).length ≤ u.length := by
  rw [exponentRaw]
  split
  · rename_i h
    exact length_exponent? h
  · exact Nat.zero_le _

/-- What is left after the sign goes on with the breaker. -/
theorem afterSign_append (hw : Breaks w) (u : List Char) :
    afterSign (u ++ w) = afterSign u ++ w := by
  rw [afterSign, sign?_append hw, List.drop_append_of_le_length (length_sign? u)]
  rfl

/-- What is left after the whole digits goes on with the breaker. -/
theorem afterWhole_append (hw : Breaks w) (u : List Char) :
    afterWhole (u ++ w) = afterWhole u ++ w := by
  rw [afterWhole, afterSign_append hw, takeWhile_isDigit_append hw,
    List.drop_append_of_le_length (length_takeWhile_le _ _)]
  rfl

theorem fractionRaw_append (hw : Breaks w) (u : List Char) :
    fractionRaw (u ++ w) = fractionRaw u := by
  rw [fractionRaw, fraction?_append hw]
  rfl

/-- What is left after the fraction goes on with the breaker. -/
theorem afterFraction_append (hw : Breaks w) (u : List Char) :
    afterFraction (u ++ w) = afterFraction u ++ w := by
  rw [afterFraction, afterWhole_append hw, fractionRaw_append hw,
    List.drop_append_of_le_length (length_fractionRaw _)]
  rfl

/-- A number is no longer for the breaker behind it. -/
theorem numeralSize_append (hw : Breaks w) (u : List Char) :
    numeralSize (u ++ w) = numeralSize u := by
  rw [numeralSize, sign?_append hw, afterSign_append hw, takeWhile_isDigit_append hw,
    afterWhole_append hw, fractionRaw_append hw, afterFraction_append hw, exponentRaw,
    exponent?_append hw]
  rfl

/-- A number is part of the text, since each part of it is taken from what the parts
    in front have left. -/
theorem numeralSize_le (u : List Char) : numeralSize u ≤ u.length := by
  have hsign := length_sign? u
  have hwhole := length_takeWhile_le Char.isDigit (afterSign u)
  have hfraction := length_fractionRaw (afterWhole u)
  have hexponent := length_exponentRaw (afterFraction u)
  have hafterSign : (afterSign u).length = u.length - (sign? u).toList.length :=
    List.length_drop
  have hafterWhole : (afterWhole u).length
      = (afterSign u).length - ((afterSign u).takeWhile Char.isDigit).length := List.length_drop
  have hafterFraction : (afterFraction u).length
      = (afterWhole u).length - (fractionRaw (afterWhole u)).length := List.length_drop
  rw [numeralSize]
  -- Each part is taken from what those in front have left, so the lengths add up.
  omega

/-- A number is the same in front of every breaker. -/
theorem numeral_append (hw : Breaks w) (u : List Char) :
    numeral (u ++ w) = ((numeral u).1, (numeral u).2.1, (numeral u).2.2 ++ w) := by
  have hsize := numeralSize_le u
  rw [numeral_eq, numeral_eq, sign?_append hw, afterSign_append hw, takeWhile_isDigit_append hw,
    afterWhole_append hw, fraction?_append hw, afterFraction_append hw, exponent?_append hw,
    numeralSize_append hw, List.take_append_of_le_length hsize,
    List.drop_append_of_le_length hsize]

end Numerals

end ThemeTokens.Css
