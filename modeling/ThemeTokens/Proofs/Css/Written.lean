import ThemeTokens.Proofs.Css.Standing

/-! # Names and white space, written and read

    A name that needs no escapes is read back from how it is written, and so is
    a run of white space. -/

namespace ThemeTokens.Css

open Component

/-! ## Names -/

/-- The text is a name and needs no escapes. -/
def IsName (cs : List Char) : Prop :=
  startsName cs = true ∧ ∀ c ∈ cs, isNameChar c = true

instance (cs : List Char) : Decidable (IsName cs) :=
  decidable_of_iff (startsName cs = true ∧ cs.all isNameChar = true)
    (and_congr_right fun _ => List.all_eq_true)

/-- No name goes on with this character. -/
def breaksName (c : Char) : Bool :=
  !isNameChar c && c != '\x00' && c != '\\'

/-- No name begins with what breaks one. -/
theorem name_of_breaks {c : Char} (h : breaksName c = true) (w : List Char) :
    name (c :: w) = .none (c :: w) := by
  simp only [breaksName, Bool.and_eq_true, Bool.not_eq_true', bne_iff_ne] at h
  obtain ⟨⟨hname, hnul⟩, hslash⟩ := h
  rw [name, if_neg (by simp [hname]), if_neg hnul, if_neg (fun h => hslash h.1)]

/-- Name characters in front of what goes on no name are the name. -/
theorem name_plain {u : List Char} (hu : ∀ c ∈ u, isNameChar c = true) {w : List Char}
    (hw : name w = .none w) : name (u ++ w) = ⟨u, u, w⟩ := by
  induction u with
  | nil => exact hw
  | cons c u ih =>
      obtain ⟨hc, hu⟩ := List.forall_mem_cons.mp hu
      rw [List.cons_append, name, if_pos hc, ih hu]
      rfl

/-- What begins a name begins it in front of every text. -/
theorem IsName.startsName_append {cs : List Char} (h : IsName cs) (w : List Char) :
    startsName (cs ++ w) = true := by
  obtain ⟨hstart, hchars⟩ := h
  match cs with
  | [] => cases hstart
  | [c] =>
      have hdash : c ≠ '-' := by
        rintro rfl
        cases hstart
      have hslash : c ≠ '\\' := by
        rintro rfl
        exact absurd (hchars '\\' (List.mem_singleton_self _)) (by decide)
      rw [startsName_cons hdash hslash] at hstart
      rw [List.singleton_append, startsName_cons hdash hslash]
      exact hstart
  | c :: d :: cs =>
      have hslash : c ≠ '\\' := by
        rintro rfl
        exact absurd (hchars '\\' (List.mem_cons_self ..)) (by decide)
      by_cases hdash : c = '-'
      · rw [hdash] at hstart ⊢
        exact hstart
      · rw [startsName_cons hdash hslash] at hstart
        rw [List.cons_append, startsName_cons hdash hslash]
        exact hstart

theorem isSpace_of_isNameStart {c : Char} (h : isNameStart c = true) : isSpace c = false := by
  cases hc : isSpace c with
  | false => rfl
  | true =>
      have hnot := eq_false_of_mem_enders (P := isNameStart) (by decide) (mem_enders_of_isSpace hc)
      rw [hnot] at h
      cases h

/-- No digit begins a name. -/
theorem isDigit_of_isNameStart {c : Char} (h : isNameStart c = true) : c.isDigit = false := by
  rw [Bool.eq_false_iff]
  intro hdigit
  simp only [isNameStart, Char.isAlpha, Char.isUpper, Char.isLower, Bool.or_eq_true,
    Bool.and_eq_true, decide_eq_true_eq, beq_iff_eq, ge_iff_le, UInt32.le_iff_toNat_le] at h
  simp only [Char.isDigit, Bool.and_eq_true, decide_eq_true_eq, ge_iff_le,
    UInt32.le_iff_toNat_le] at hdigit
  have hlow : 48 ≤ c.toNat := hdigit.1
  have hhigh : c.toNat ≤ 57 := hdigit.2
  rcases h with (((h | h) | h) | h) | h
  · have hupper : 65 ≤ c.toNat := h.1
    omega
  · have hlower : 97 ≤ c.toNat := h.1
    omega
  · rw [h] at hhigh
    exact absurd hhigh (by decide)
  · rw [h] at hlow
    exact absurd hlow (by decide)
  · omega

/-- A name that begins with no letter begins with a dash, and another one or a
    letter follows. -/
theorem dash_of_not_nameStart {c : Char} {u : List Char} (h : IsName (c :: u))
    (hc : ¬ isNameStart c = true) :
    c = '-' ∧ ∃ e v, u = e :: v ∧ (e = '-' ∨ isNameStart e = true) := by
  obtain ⟨hstart, hchars⟩ := h
  have hslash : '\\' ∉ c :: u := fun hmem => absurd (hchars _ hmem) (by decide)
  by_cases hdash : c = '-'
  · subst hdash
    cases u with
    | nil => cases hstart
    | cons e v =>
        have he : (e == '-' || e == '\\' || isNameStart e) = true := hstart
        simp only [Bool.or_eq_true, beq_iff_eq] at he
        rcases he with (he | he) | he
        · exact ⟨rfl, e, v, rfl, Or.inl he⟩
        · exact absurd (by simp [he]) hslash
        · exact ⟨rfl, e, v, rfl, Or.inr he⟩
  · have hne : c ≠ '\\' := by
      rintro rfl
      exact hslash (List.mem_cons_self ..)
    rw [startsName_cons hdash hne] at hstart
    exact absurd hstart hc

/-- A name is one token where neither a name nor a function goes on. -/
theorem lex_name {c : Char} {u : List Char} (h : IsName (c :: u)) {d : Char}
    (hd : breaksName d = true) (hparen : d ≠ '(') (hclose : d ≠ '>') (w : List Char) :
    lex c (u ++ d :: w) = ⟨.ident (String.ofList (c :: u)), c :: u, d :: w⟩ := by
  have hname := name_plain h.2 (name_of_breaks hd w)
  have hident : identLike (c :: (u ++ d :: w))
      = ⟨.ident (String.ofList (c :: u)), c :: u, d :: w⟩ := by
    rw [← List.cons_append, identLike_of_not_paren, hname]
    rw [hname]
    intro heq
    exact hparen (Option.some.inj heq)
  by_cases hstart : isNameStart c = true
  · rw [lex_nameStart (isSpace_of_isNameStart hstart) hstart, hident]
  -- What else begins a name without an escape is a dash.
  obtain ⟨rfl, e, v, rfl, he⟩ := dash_of_not_nameStart h hstart
  have hdot : e ≠ '.' := by
    rintro rfl
    rcases he with he | he
    · cases he
    · exact absurd he (by decide)
  have hdigit : e.isDigit = false := by
    rcases he with rfl | he
    · rfl
    · exact isDigit_of_isNameStart he
  have hend : ¬ ['-', '>'] <+: e :: v ++ d :: w := by
    intro hprefix
    cases v with
    | nil =>
        rw [List.cons_append, List.cons_prefix_cons, List.nil_append,
          List.cons_prefix_cons] at hprefix
        exact hclose hprefix.2.1.symm
    | cons f v =>
        rw [List.cons_append, List.cons_prefix_cons, List.cons_append,
          List.cons_prefix_cons] at hprefix
        have hf := h.2 f (by simp)
        rw [← hprefix.2.1] at hf
        cases hf
  have hstarts := h.startsName_append (d :: w)
  rw [List.cons_append] at hstarts
  rw [lex_dash, List.cons_append, startsDigits_cons hdot, hdigit, if_neg nofun,
    ← List.cons_append, if_neg hend, if_pos hstarts, hident]

/-- The tokens of a property and its colon. -/
theorem cut_property {cs : List Char} (h : IsName cs) (w : List Char) :
    cut (cs ++ ':' :: w)
      = ⟨.ident (String.ofList cs), cs, .none, .none⟩
        :: ⟨.colon, [':'], .none, .none⟩ :: cut w := by
  cases cs with
  | nil => cases h.1
  | cons c u =>
      rw [List.cons_append, cut_cons, lex_name h (by decide) (by decide) (by decide)]
      exact congrArg _ (cut_cons ':' w)

/-- The token of the name of an at-rule. -/
theorem cut_at {cs : List Char} (h : IsName cs) {w : List Char} (hw : name w = .none w) :
    cut ('@' :: (cs ++ w)) = ⟨.atKeyword (String.ofList cs), '@' :: cs, .none, .none⟩ :: cut w := by
  rw [cut_cons, lex_at, if_pos (h.startsName_append w), name_plain h.2 hw]
  rfl

/-! ## White space -/

/-- The component that a run of blanks makes, if there are any. -/
def white (sp : List Char) : List Component :=
  if sp = [] then [] else [.token ⟨.whiteSpace (String.ofList sp), sp, .none, .none⟩]

theorem rawAll_white (sp : List Char) : rawAll (white sp) = sp := by
  rw [white]
  split
  · rename_i hnil
    rw [hnil]
    rfl
  · exact List.append_nil sp

/-- What is around rules and declarations is nothing, or a block in curly
    brackets. -/
def Outer (closer : Option Token) : Prop :=
  closer = none ∨ closer = some .closeCurly

/-- Only a curly bracket closes what is around rules and declarations. -/
theorem Outer.ne {closer : Option Token} (h : Outer closer) {token : Token}
    (htoken : token ≠ .closeCurly) : closer ≠ some token := by
  rintro rfl
  rcases h with h | h
  · cases h
  · exact htoken (Option.some.inj h)

/-- White space closes nothing. -/
theorem closed_white {closer : Option Token} (h : Outer closer) (sp : List Char) :
    Closed closer (white sp) := by
  rw [white]
  split
  · exact .nil
  · exact .token rfl (h.ne nofun) .nil

/-- What begins no part begins no parts put together. -/
theorem head?_append {P : Char → Bool} {v w : List Char} (hv : ∀ c ∈ v.head?, P c = false)
    (hw : ∀ c ∈ w.head?, P c = false) : ∀ c ∈ (v ++ w).head?, P c = false := by
  cases v with
  | nil => exact hw
  | cons c v => exact hv

theorem head?_append_of_ne_nil {P : Char → Bool} {v : List Char}
    (hv : ∀ c ∈ v.head?, P c = false) (hne : v ≠ []) (w : List Char) :
    ∀ c ∈ (v ++ w).head?, P c = false := by
  cases v with
  | nil => exact absurd rfl hne
  | cons c v => exact hv

/-- White space is one token where something else follows. -/
theorem cut_white {sp : List Char} (hsp : ∀ c ∈ sp, isSpace c = true) {w : List Char}
    (hw : ∀ c ∈ w.head?, isSpace c = false) :
    cut (sp ++ w) = lexemesAll (white sp) ++ cut w := by
  cases sp with
  | nil => rfl
  | cons c sp =>
      obtain ⟨hc, hsp⟩ := List.forall_mem_cons.mp hsp
      rw [List.cons_append, cut_cons, lex_spaces hc hsp hw]
      rfl

/-- White space in front of something else can be parted in one way only. -/
theorem spaces_split {a sp w w' : List Char} (hw : ∀ c ∈ w.head?, isSpace c = false)
    (hsp : ∀ c ∈ sp, isSpace c = true) (h : a ++ w = sp ++ w') :
    ∃ b, a = sp ++ b ∧ w' = b ++ w := by
  rcases List.append_eq_append_iff.mp h with ⟨b, hb, hx⟩ | ⟨b, hb, hx⟩
  · cases b with
    | nil => exact ⟨[], by rw [hb, List.append_nil, List.append_nil], hx.symm⟩
    | cons d b =>
        have hspace := hsp d (by rw [hb]; simp)
        rw [hw d (by rw [hx]; rfl)] at hspace
        cases hspace
  · exact ⟨b, hb, hx⟩

end ThemeTokens.Css
