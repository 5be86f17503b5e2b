import ThemeTokens.Lint.Check
import ThemeTokens.Proofs.Modern.Rescan

/-! # The check and the output agree

    References are checked by one pass over the declarations and replaced by
    another, and each has its own grounds to object.  `checkSheet_eq_nil_iff`
    says that the two accept the same stylesheets: apart from dollar signs,
    which only the check objects to, both ask that every value that mentions
    the word can be read and that its references have light values of the
    authority (`Declaration.Answered`). -/

namespace ThemeTokens

/-- No reference has a dollar sign in front of its path. -/
def ParsedValue.DollarFree (value : ParsedValue) : Prop :=
  ∀ r ∈ value.references, r.dollar = false

/-- No reference of the stylesheet has a dollar sign in front of its path. -/
def Stylesheet.DollarFree (sheet : Stylesheet) : Prop :=
  ∀ d ∈ sheet.declarations, ∀ value, ParsedValue.parse d.value = .ok value → value.DollarFree

namespace Lint

variable {tokens : TokenMap}

/-- There is nothing to say about a value that was read when its references
    have no dollar signs and have values. -/
theorem checkValue_parsed {text : String} {value : ParsedValue}
    (hm : mentionsTheme text = true) (hparse : ParsedValue.parse text = .ok value) :
    checkValue text tokens = none
      ↔ value.DollarFree ∧ ∀ r ∈ value.references, (tokens.value? r.path).isSome = true := by
  rw [checkValue, if_pos hm, hparse]
  dsimp only
  by_cases hdollar : value.references.any (·.dollar) = true
  · rw [if_pos hdollar]
    obtain ⟨r, hr, hd⟩ := List.any_eq_true.mp hdollar
    constructor
    · intro h
      cases h
    · rintro ⟨hfree, -⟩
      rw [hfree r hr] at hd
      cases hd
  · have hfree : value.DollarFree := by
      intro r hr
      refine Bool.eq_false_iff.mpr fun hd => hdollar ?_
      exact List.any_eq_true.mpr ⟨r, hr, hd⟩
    rw [if_neg hdollar, Option.map_eq_none_iff, List.find?_eq_none]
    constructor
    · intro h
      refine ⟨hfree, fun r hr => ?_⟩
      have hvalue := h r hr
      rw [Bool.not_eq_true', Bool.not_eq_false] at hvalue
      exact hvalue
    · rintro ⟨-, hvalues⟩ r hr hmissing
      rw [Bool.not_eq_true'] at hmissing
      exact Bool.false_ne_true (hmissing.symm.trans (hvalues r hr))

/-- A value that cannot be read is reported. -/
theorem checkValue_malformed {text : String} {e : ThemeError} (hm : mentionsTheme text = true)
    (hparse : ParsedValue.parse text = .error e) : checkValue text tokens ≠ none := by
  rw [checkValue, if_pos hm, hparse]
  intro h
  split at h
  · cases h
  · cases h
  · rename_i heq
    cases heq

/-- **NOTHING TO REPORT**: a declaration passes the check exactly when its
    references have values and no dollar signs. -/
theorem checkDeclaration_eq_none_iff {d : Declaration} :
    checkDeclaration tokens d = none
      ↔ d.Answered tokens
        ∧ (mentionsTheme d.value = true → ∀ value, ParsedValue.parse d.value = .ok value →
            value.DollarFree) := by
  rw [checkDeclaration, Option.map_eq_none_iff]
  by_cases hm : mentionsTheme d.value = true
  · cases hparse : ParsedValue.parse d.value with
    | error e =>
        refine iff_of_false (checkValue_malformed hm hparse) ?_
        rintro ⟨hanswered, -⟩
        obtain ⟨value, hvalue, -⟩ := hanswered hm
        cases hparse.symm.trans hvalue
    | ok value =>
        rw [checkValue_parsed hm hparse]
        constructor
        · rintro ⟨hfree, hvalues⟩
          refine ⟨fun _ => ⟨value, hparse, hvalues⟩, fun _ other hother => ?_⟩
          rw [← Except.ok.inj hother]
          exact hfree
        · rintro ⟨hanswered, hfree⟩
          obtain ⟨other, hother, hvalues⟩ := hanswered hm
          rw [hparse] at hother
          rw [Except.ok.inj hother]
          exact ⟨hfree hm other (by rw [hother]), hvalues⟩
  · rw [checkValue, if_neg hm]
    exact iff_of_true rfl ⟨fun hyes => absurd hyes hm, fun hyes => absurd hyes hm⟩

/-- **THE CHECK AND THE OUTPUT AGREE**: where nothing has a dollar sign, a
    stylesheet is written with custom properties exactly when there is nothing
    to report about it. -/
theorem checkSheet_eq_nil_iff {config : ResolvedConfig} {options : OutputOptions}
    {localizer : Localizer} {sheet : Stylesheet} (hdollar : sheet.DollarFree)
    (hinline : options.inline = false)
    (hliteral : Modern.isLiteral options
      (Modern.singleTheme config options (Modern.authorityOf config options)) = false)
    (hnaming : localizer.naming = none) :
    checkSheet sheet config options.defaultTheme = []
      ↔ ∃ out, Modern.apply config options localizer sheet = .ok out := by
  -- Both look at the same tokens.
  have htokens : lightTokens config options.defaultTheme
      = (Modern.authorityOf config options).light := by
    rw [lightTokens, Modern.authorityOf]
    cases config.get? options.defaultTheme with
    | none => rfl
    | some theme => rfl
  rw [Modern.apply_ok_iff hinline hliteral hnaming, checkSheet, List.filterMap_eq_nil_iff, htokens]
  constructor
  · intro h d hd
    exact (checkDeclaration_eq_none_iff.mp (h d hd)).1
  · intro h d hd
    exact checkDeclaration_eq_none_iff.mpr ⟨h d hd, fun _ value hvalue => hdollar d hd value hvalue⟩

/-- A theme with a token that is called like the word itself. -/
def echo : ResolvedConfig := .ofList
  [("day", ⟨(TokenMap.empty.insertText "theme" "black").insertText "gap" "1px", .empty⟩)]

/-- References without anything between them, and one in front of a
    parenthesis. -/
def echoed : Declaration :=
  { property := "border", value := "theme('gap')theme('theme')@theme theme('theme" }

/-- A rule with nothing else in it. -/
def echoing : Stylesheet := ⟨[.rule { selector := ".a", declarations := [echoed] }]⟩

theorem echoing_agrees :
    checkSheet echoing echo "day" = []
      ∧ ∃ out, Modern.apply echo { defaultTheme := "day", inline := false } ⟨none, none, ""⟩ echoing
          = .ok out := by
  have hclean : checkSheet echoing echo "day" = [] := by decide +kernel
  have hread : ((ParsedValue.parse echoed.value).toOption.all
      fun value => value.references.all (!·.dollar)) = true := by
    decide +kernel
  have hdollar : echoing.DollarFree := by
    intro d hd value hvalue r hr
    have hd : d = echoed := List.mem_singleton.mp hd
    rw [hd] at hvalue
    rw [hvalue] at hread
    have hplain := List.all_eq_true.mp hread r hr
    rw [Bool.not_eq_true'] at hplain
    exact hplain
  refine ⟨hclean, ?_⟩
  exact (checkSheet_eq_nil_iff hdollar rfl (by decide +kernel) rfl).mp hclean

end Lint

end ThemeTokens
