import ThemeTokens.Proofs.Reference.Respelling
import ThemeTokens.Reference.Substitute

/-! # Texts without references

    Substitution ends with a look at the text it has put together: a reference
    in it, or an opener without one, is an error.  A text passes exactly when
    it reads as a value that has no references (`hasLeftover_eq_false_iff`).
    Most texts are not even read, since without the word of the openers there
    is nothing to find in them. -/

namespace ThemeTokens

/-- The text is read, and there is no reference in it. -/
def ReferenceFree (text : String) : Prop :=
  ∃ value, ParsedValue.parse text = .ok value ∧ value.hasReferences = false

/-- Both openers contain the word. -/
theorem Opens.isInfix {before : Option Char} {cs : List Char} (h : Opens before cs) :
    themeWord <:+: cs := by
  rcases h with ⟨tail, rfl⟩ | ⟨-, blanks, -, tail, rfl⟩
  · exact ⟨['@'], tail, rfl⟩
  · exact ⟨[], blanks ++ ['('] ++ tail, by simp only [List.nil_append, List.append_assoc]⟩

/-- Where the word is nowhere every character is taken as it is. -/
theorem marks_progress {before : Option Char} {cs : List Char} (h : ¬ themeWord <:+: cs) :
    ∃ ms, marks before cs = .ok ms := by
  induction before, cs using marks.induct with
  | case1 before =>
      rw [marks]
      exact ⟨[], rfl⟩
  | case2 before c tail hq ih =>
      have hsuffix : (stringRest c tail).2 <:+ c :: tail :=
        .trans ⟨_, stringRest_append c tail⟩ (List.suffix_cons c tail)
      obtain ⟨more, hm⟩ := ih fun hword => h (hword.trans hsuffix.isInfix)
      rw [marks_string hq, hm]
      exact ⟨_, rfl⟩
  | case3 before c tail hq fault ho =>
      have hplain : ¬ Opens before (c :: tail) := fun hopens => h hopens.isInfix
      cases ho.symm.trans (opener?_eq_none_iff.mpr hplain)
  | case4 before c tail hq r rest ho ih => exact absurd (isInfix_of_opener? ho) h
  | case5 before c tail hq ho ih =>
      obtain ⟨more, hm⟩ := ih fun hword => h (hword.trans (List.suffix_cons c tail).isInfix)
      rw [marks_char hq (opener?_eq_none_iff.mp ho), hm]
      exact ⟨_, rfl⟩

/-- A text that does not mention the word has no reference in it. -/
theorem referenceFree_of_not_mentions {text : String} (h : mentionsTheme text = false) :
    ReferenceFree text := by
  have hword : ¬ themeWord <:+: text.toList := by
    intro hinfix
    have hm : mentionsTheme text = true := Text.occurs_iff_isInfix.mpr hinfix
    cases hm.symm.trans h
  have hread : ∃ ms, marks none text.toList = .ok ms := marks_progress hword
  obtain ⟨ms, hms⟩ := hread
  have hparse : ParsedValue.parse text = .ok ⟨gather ms⟩ := by
    rw [ParsedValue.parse, hms]
  refine ⟨_, hparse, Bool.eq_false_iff.mpr fun hr => ?_⟩
  rw [mentionsTheme_of_hasReferences hparse hr] at h
  cases h

/-- **THE LAST LOOK**: a text passes exactly when there is no reference in it. -/
theorem hasLeftover_eq_false_iff {text : String} :
    hasLeftover text = false ↔ ReferenceFree text := by
  rw [hasLeftover]
  constructor
  · intro h
    by_cases hm : mentionsTheme text = true
    · rw [hm, Bool.true_and] at h
      cases hparse : ParsedValue.parse text with
      | error e =>
          rw [hparse] at h
          cases h
      | ok value =>
          rw [hparse] at h
          exact ⟨value, hparse, h⟩
    · exact referenceFree_of_not_mentions (Bool.eq_false_iff.mpr hm)
  · rintro ⟨value, hparse, hfree⟩
    rw [hparse]
    show (_ && value.hasReferences) = false
    rw [hfree, Bool.and_false]

/-- What substitution writes has passed. -/
theorem referenceFree_of_substitute {resolve : Reference → Except ThemeError (Option String)}
    {value : ParsedValue} {text : String} (h : value.substitute resolve = .ok (.text text)) :
    ReferenceFree text := by
  obtain ⟨filled, -, h⟩ := Outcome.bind_eq_ok.mp h
  cases filled with
  | dropped missing => cases h
  | text found =>
      rw [Substituted.check] at h
      by_cases hleft : hasLeftover found = true
      · rw [if_pos hleft] at h
        cases h
      · rw [if_neg hleft] at h
        rw [← Substituted.text.inj (Except.ok.inj h)]
        exact hasLeftover_eq_false_iff.mp (Bool.eq_false_iff.mpr hleft)

end ThemeTokens
