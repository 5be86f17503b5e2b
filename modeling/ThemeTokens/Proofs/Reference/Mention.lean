import ThemeTokens.Proofs.Outcome
import ThemeTokens.Proofs.Text.Search
import ThemeTokens.Reference.Parse

/-! # Every reference is mentioned

    A value is only split where it mentions the word that every reference
    begins with.  Nothing is missed that way: the marks of a value hold a
    reference only where one of the two openers was read, and both contain the
    word. -/

namespace ThemeTokens

/-- The reference of a mark, if it is one. -/
def Mark.reference? : Mark → Option Reference
  | .char _ => none
  | .reference r => some r

/-- Characters are no references. -/
theorem references_chars (cs : List Char) :
    (cs.map Mark.char).filterMap Mark.reference? = [] := by
  rw [List.filterMap_map, List.filterMap_eq_nil_iff]
  exact fun _ _ => rfl

/-- The word that every reference begins with. -/
def themeWord : List Char := "theme".toList

/-- Where a reference opens, the word is read. -/
theorem isInfix_of_opener? {before : Option Char} {cs rest : List Char} {r : Reference}
    (h : opener? before cs = .ok (some (r, rest))) : themeWord <:+: cs := by
  unfold opener? at h
  -- It opens with the word behind an `@`, or in front of a parenthesis.
  split at h
  · rename_i tail
    exact ⟨['@'], tail, rfl⟩
  · rename_i tail
    exact ⟨[], tail, rfl⟩
  · cases h

/-- A quoted string and what follows it make up the text behind the quote. -/
theorem stringRest_append (quote : Char) (cs : List Char) :
    (stringRest quote cs).1 ++ (stringRest quote cs).2 = cs := by
  fun_induction stringRest quote cs with
  | case1 => rfl
  | case2 => rfl
  | case3 c cs inside rest heq ih =>
      rw [heq] at ih
      show '\\' :: c :: (inside ++ rest) = _
      rw [ih]
  | case4 => rfl
  | case5 c cs _ _ _ inside rest heq ih =>
      rw [heq] at ih
      show c :: (inside ++ rest) = _
      rw [ih]

/-- How the marks of a text begin: with a quoted string taken as it is, with a
    reference, or with a single character. -/
theorem marks_cons_eq_ok {before : Option Char} {c : Char} {tail : List Char}
    {ms : List Mark} (h : marks before (c :: tail) = .ok ms) :
    ((c = '\'' ∨ c = '"') ∧ ∃ more, marks none (stringRest c tail).2 = .ok more ∧
        ms = (c :: (stringRest c tail).1).map .char ++ more)
      ∨ (¬ (c = '\'' ∨ c = '"') ∧ ∃ r rest more,
          opener? before (c :: tail) = .ok (some (r, rest)) ∧
          marks none rest = .ok more ∧ ms = .reference r :: more)
      ∨ (¬ (c = '\'' ∨ c = '"') ∧ opener? before (c :: tail) = .ok none ∧
          ∃ more, marks (some c) tail = .ok more ∧ ms = .char c :: more) := by
  rw [marks] at h
  by_cases hq : c = '\'' ∨ c = '"'
  · rw [if_pos hq] at h
    obtain ⟨more, hm, rfl⟩ := Outcome.map_eq_ok.mp h
    exact Or.inl ⟨hq, more, hm, rfl⟩
  · rw [if_neg hq] at h
    split at h
    · cases h
    · rename_i r rest ho
      obtain ⟨more, hm, rfl⟩ := Outcome.map_eq_ok.mp h
      exact Or.inr (Or.inl ⟨hq, r, rest, more, ho, hm, rfl⟩)
    · rename_i ho
      obtain ⟨more, hm, rfl⟩ := Outcome.map_eq_ok.mp h
      exact Or.inr (Or.inr ⟨hq, ho, more, hm, rfl⟩)

/-- A value with a reference among its marks contains the word. -/
theorem isInfix_of_marks {before : Option Char} {cs : List Char} {ms : List Mark}
    (h : marks before cs = .ok ms) {r : Reference} (hr : .reference r ∈ ms) :
    themeWord <:+: cs := by
  induction before, cs using marks.induct generalizing ms with
  | case1 before =>
      rw [marks] at h
      rw [← Except.ok.inj h] at hr
      cases hr
  | case2 before c tail hq ih =>
      rcases marks_cons_eq_ok h with ⟨-, more, hm, rfl⟩ | ⟨hno, -⟩ | ⟨hno, -⟩
      · rcases List.mem_append.mp hr with hchar | hmore
        · obtain ⟨d, -, hd⟩ := List.mem_map.mp hchar
          cases hd
        · -- Nothing is read inside of a string, so the reference is behind it.
          have hsuffix : (stringRest c tail).2 <:+ c :: tail := by
            refine List.IsSuffix.trans ⟨(stringRest c tail).1, ?_⟩ (List.suffix_cons c tail)
            exact stringRest_append c tail
          exact (ih hm hmore).trans hsuffix.isInfix
      · exact absurd hq hno
      · exact absurd hq hno
  | case3 before c tail hq fault ho =>
      rcases marks_cons_eq_ok h with ⟨hyes, -⟩ | ⟨-, _, _, _, ho', -⟩ | ⟨-, ho', -⟩
      · exact absurd hyes hq
      · cases (ho.symm.trans ho')
      · cases (ho.symm.trans ho')
  | case4 before c tail hq r rest ho ih => exact isInfix_of_opener? ho
  | case5 before c tail hq ho ih =>
      rcases marks_cons_eq_ok h with ⟨hyes, -⟩ | ⟨-, _, _, _, ho', -⟩ | ⟨-, -, more, hm, rfl⟩
      · exact absurd hyes hq
      · cases (ho.symm.trans ho')
      · rcases List.mem_cons.mp hr with hself | hmore
        · cases hself
        · exact (ih hm hmore).trans (List.suffix_cons c tail).isInfix

/-- Gathering characters into literals keeps the references. -/
theorem references_gather (ms : List Mark) :
    (gather ms).filterMap Segment.reference? = ms.filterMap Mark.reference? := by
  have hprepend : ∀ (c : Char) (segments : List Segment),
      (prependChar c segments).filterMap Segment.reference?
        = segments.filterMap Segment.reference? := by
    intro c segments
    rcases segments with _ | ⟨_ | _, rest⟩
    · rfl
    · rfl
    · rfl
  induction ms with
  | nil => rfl
  | cons m ms ih =>
      cases m with
      | char c =>
          rw [gather, hprepend, ih]
          rfl
      | reference r =>
          show r :: (gather ms).filterMap Segment.reference?
            = r :: ms.filterMap Mark.reference?
          rw [ih]

theorem hasReferences_iff {value : ParsedValue} :
    value.hasReferences = true ↔ ∃ r, r ∈ value.references := by
  rw [ParsedValue.hasReferences, Bool.not_eq_true', List.isEmpty_eq_false_iff_exists_mem]

/-- **MENTION**: a value with references mentions the word. -/
theorem mentionsTheme_of_hasReferences {text : String} {value : ParsedValue}
    (h : ParsedValue.parse text = .ok value) (hr : value.hasReferences = true) :
    mentionsTheme text = true := by
  rw [ParsedValue.parse] at h
  split at h
  · rename_i ms hms
    obtain ⟨r, hmem⟩ := hasReferences_iff.mp hr
    rw [← Except.ok.inj h, ParsedValue.references, references_gather] at hmem
    obtain ⟨m, hm, hmr⟩ := List.mem_filterMap.mp hmem
    cases m with
    | char c => cases hmr
    | reference r' => exact Text.occurs_iff_isInfix.mpr (isInfix_of_marks hms hm)
  · cases h

end ThemeTokens
