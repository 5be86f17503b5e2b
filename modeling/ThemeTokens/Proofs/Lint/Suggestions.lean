import Mathlib.Data.List.Count
import ThemeTokens.Lint.Check
import ThemeTokens.Proofs.Lint.Distance
import ThemeTokens.Proofs.Outcome
import ThemeTokens.Proofs.Token.Flatten

/-! # Suggested paths

    Suggestions are taken from the listing of a theme, while a lookup decides
    what has a value, and the two agree on legible leaves only.  A path that
    nothing but legible leaves is listed under makes a suggestion of use: there
    is a value under it, it is not the reported path, and it comes once.  Other
    leaves can make a suggestion of the very path that is reported
    (`checkValue_suggests`, `checkValue_suggests_fails`). -/

namespace ThemeTokens

open TokenValue (Leads)

namespace Lint

variable {tokens : TokenMap} {path : TokenPath} {s : String}

/-! ## Where suggestions come from -/

theorem closer_trans (p q r : Nat × String) (hpq : closer p q = true) (hqr : closer q r = true) :
    closer p r = true := by
  simp only [closer, Bool.or_eq_true, Bool.and_eq_true, decide_eq_true_eq, beq_iff_eq] at *
  rcases hpq with hpq | ⟨hpq, hle⟩
  · omega
  · rcases hqr with hqr | ⟨hqr, hle'⟩
    · omega
    · exact .inr ⟨hpq.trans hqr, String.le_trans hle hle'⟩

theorem closer_total (p q : Nat × String) : (closer p q || closer q p) = true := by
  simp only [closer, Bool.or_eq_true, Bool.and_eq_true, decide_eq_true_eq, beq_iff_eq]
  rcases Nat.lt_trichotomy p.1 q.1 with h | h | h
  · exact .inl (.inl h)
  · rcases String.le_total p.2 q.2 with hle | hle
    · exact .inl (.inr ⟨h, hle⟩)
    · exact .inr (.inr ⟨h.symm, hle⟩)
  · exact .inr (.inl h)

/-- What is closer is at no greater distance. -/
theorem le_of_closer {p q : Nat × String} (h : closer p q = true) : p.1 ≤ q.1 := by
  simp only [closer, Bool.or_eq_true, Bool.and_eq_true, decide_eq_true_eq, beq_iff_eq] at h
  omega

/-- Suggestions are listed paths, none more often than it is listed. -/
theorem count_suggestions_le (path : TokenPath) (tokens : TokenMap) (s : String) :
    (suggestions path tokens).count s ≤ (tokens.flatten.map Prod.fst).count ⟨s⟩ := by
  have htexts : (tokens.flatten.map fun entry => entry.1.text).count s
      = (tokens.flatten.map Prod.fst).count ⟨s⟩ := by
    have hmap : (tokens.flatten.map fun entry => entry.1.text)
        = (tokens.flatten.map Prod.fst).map TokenPath.text := by
      rw [List.map_map]
      rfl
    rw [hmap]
    exact List.count_map_of_injective _ _ (fun _ _ h => congrArg TokenPath.mk h) (TokenPath.mk s)
  have hkept : ((candidates path tokens).map Prod.snd).Sublist
      (tokens.flatten.map fun entry => entry.1.text) := by
    rw [candidates]
    refine (List.filter_sublist.map Prod.snd).trans ?_
    rw [List.map_map]
    exact List.Sublist.refl _
  rw [← htexts]
  calc (suggestions path tokens).count s
      ≤ (((candidates path tokens).mergeSort closer).map Prod.snd).count s :=
        ((List.take_sublist _ _).map Prod.snd).count_le s
    _ = ((candidates path tokens).map Prod.snd).count s :=
        ((List.mergeSort_perm _ _).map Prod.snd).count_eq s
    _ ≤ (tokens.flatten.map fun entry => entry.1.text).count s := hkept.count_le s

/-- A suggestion stands for a leaf. -/
theorem exists_leads_of_suggested (h : s ∈ suggestions path tokens) :
    ∃ names text, spelled names = s ∧ Leads tokens.toValue names text := by
  have hlisted : 0 < (tokens.flatten.map Prod.fst).count ⟨s⟩ :=
    Nat.lt_of_lt_of_le (List.count_pos_iff.mpr h) (count_suggestions_le path tokens s)
  obtain ⟨⟨listed, text⟩, hmem, heq⟩ := List.mem_map.mp (List.count_pos_iff.mp hlisted)
  obtain ⟨names, hnames, hleads⟩ := TokenMap.mem_flatten_iff_leads.mp hmem
  exact ⟨names, text, hnames.trans (congrArg TokenPath.text heq), hleads⟩

/-- A listed path comes first among the suggestions for itself: nothing else is as
    close to it. -/
theorem suggested_of_leads {names : List String} {text : String}
    (h : Leads tokens.toValue names text) (hpath : spelled names = path.text) :
    path.text ∈ suggestions path tokens := by
  have hcandidate : (0, path.text) ∈ candidates path tokens := by
    refine List.mem_filter.mpr ⟨List.mem_map.mpr ⟨(path, text), ?_, ?_⟩, ?_⟩
    · exact TokenMap.mem_flatten_iff_leads.mpr ⟨names, hpath, h⟩
    · exact congrArg (·, path.text) (distance_eq_zero_iff.mpr rfl)
    · exact decide_eq_true (Nat.zero_le _)
  have hperm := List.mergeSort_perm (candidates path tokens) closer
  have hsorted := List.pairwise_mergeSort closer_trans closer_total (candidates path tokens)
  rw [suggestions]
  cases hsort : (candidates path tokens).mergeSort closer with
  | nil =>
      have hnone := hperm.symm.subset hcandidate
      rw [hsort] at hnone
      cases hnone
  | cons first rest =>
      rw [hsort] at hperm hsorted
      refine List.mem_map.mpr ⟨first, List.mem_cons_self, ?_⟩
      -- The first candidate is at no distance, like the path itself.
      have hzero : first.1 = 0 := by
        rcases List.mem_cons.mp (hperm.symm.subset hcandidate) with heq | hmem
        · rw [← heq]
        · exact Nat.le_zero.mp (le_of_closer (List.rel_of_pairwise_cons hsorted hmem))
      obtain ⟨⟨known, found⟩, -, heq⟩ :=
        List.mem_map.mp (List.mem_filter.mp (hperm.subset List.mem_cons_self)).1
      rw [← heq] at hzero ⊢
      exact (String.toList_injective (distance_eq_zero_iff.mp hzero)).symm

/-! ## What they are good for -/

/-- A suggestion of use: a lookup finds a value, the path is not the one that is
    reported, and it is suggested once. -/
structure IsUsable (tokens : TokenMap) (path : TokenPath) (s : String) : Prop where
  found : (tokens.value? ⟨s⟩).isSome = true
  other : s ≠ path.text
  once : (suggestions path tokens).count s = 1

/-- Every leaf that is listed under the path has legible names. -/
def OnlyLegible (tokens : TokenMap) (s : String) : Prop :=
  ∀ names text, Leads tokens.toValue names text → spelled names = s → Legible names

theorem isUsable_of_onlyLegible (hpath : tokens.value? path = none)
    (h : s ∈ suggestions path tokens) (hlegible : OnlyLegible tokens s) :
    IsUsable tokens path s := by
  obtain ⟨names, text, rfl, hleads⟩ := exists_leads_of_suggested h
  have hvalue := TokenMap.value?_spelled hleads (hlegible names text hleads rfl)
  refine ⟨by rw [hvalue]; rfl, fun heq => ?_, ?_⟩
  · rw [heq, hpath] at hvalue
    cases hvalue
  · refine Nat.le_antisymm ?_ (List.count_pos_iff.mpr h)
    exact (count_suggestions_le path tokens _).trans (TokenMap.count_flatten_le_one hlegible)

/-- A path is reported because it is the path of a reference and has no value. -/
theorem checkValue_eq_notFound {value message : String}
    (h : checkValue value tokens = some (.variableNotFound, message)) :
    ∃ parsed, ParsedValue.parse value = .ok parsed ∧ ∃ r ∈ parsed.references,
      tokens.value? r.path = none ∧ message = notFoundMessage r.path tokens := by
  rw [checkValue] at h
  split at h
  · split at h
    · cases h
    · cases h
    · rename_i parsed hparse
      split at h
      · cases h
      · obtain ⟨r, hfind, hmessage⟩ := Option.map_eq_some_iff.mp h
        refine ⟨parsed, hparse, r, List.mem_of_find?_eq_some hfind, ?_,
          (Prod.mk.inj hmessage).2.symm⟩
        have hmissing := List.find?_some hfind
        rw [Bool.not_eq_true', Lookup.isValue, Option.isSome_eq_false_iff,
          Option.isNone_iff_eq_none] at hmissing
        exact hmissing
  · cases h

/-- **SUGGESTIONS**: what the message for a path without a value suggests is of use
    where only legible leaves are listed under it.  The reported path is itself
    suggested exactly if a leaf is listed under it. -/
theorem checkValue_suggests {value message : String}
    (h : checkValue value tokens = some (.variableNotFound, message)) :
    ∃ parsed, ParsedValue.parse value = .ok parsed ∧ ∃ r ∈ parsed.references,
      tokens.value? r.path = none ∧ message = notFoundMessage r.path tokens
        ∧ (∀ s ∈ suggestions r.path tokens, OnlyLegible tokens s → IsUsable tokens r.path s)
        ∧ (r.path.text ∈ suggestions r.path tokens
            ↔ ∃ names text, spelled names = r.path.text ∧ Leads tokens.toValue names text) := by
  obtain ⟨parsed, hparse, r, hr, hnone, hmessage⟩ := checkValue_eq_notFound h
  refine ⟨parsed, hparse, r, hr, hnone, hmessage,
    fun s hs hlegible => isUsable_of_onlyLegible hnone hs hlegible,
    exists_leads_of_suggested, ?_⟩
  rintro ⟨names, text, hnames, hleads⟩
  exact suggested_of_leads hleads hnames

theorem onlyLegible_of_plainKeys (h : tokens.PlainKeys) (s : String) : OnlyLegible tokens s :=
  fun _ _ hleads _ => h.legible hleads

/-- Both suggestions for a mistyped path are of use. -/
theorem mistyped_suggests :
    suggestions ⟨"colors.purpel"⟩ swatches = ["colors.purple", "colors.deep.blue"]
      ∧ ∀ s ∈ suggestions ⟨"colors.purpel"⟩ swatches, IsUsable swatches ⟨"colors.purpel"⟩ s := by
  have hread : ParsedValue.parse "1px solid theme('colors.purpel')"
      = .ok ⟨[.literal "1px solid ", .reference ⟨⟨"colors.purpel"⟩, .function, false⟩]⟩ :=
    Outcome.toOption_eq_some_iff.mp (by decide +kernel)
  have hreport : checkValue "1px solid theme('colors.purpel')" swatches
      = some (.variableNotFound, notFoundMessage ⟨"colors.purpel"⟩ swatches) := by
    rw [checkValue, if_pos (by decide +kernel), hread]
    rfl
  obtain ⟨parsed, hparse, r, hr, -, -, husable, -⟩ := checkValue_suggests hreport
  rw [← Except.ok.inj (hread.symm.trans hparse)] at hr
  rw [List.mem_singleton.mp hr] at husable
  have hcandidates : candidates ⟨"colors.purpel"⟩ swatches
      = [(2, "colors.purple"), (7, "colors.deep.blue")] := by
    decide +kernel
  refine ⟨?_, fun s hs => husable s hs (onlyLegible_of_plainKeys swatches_plainKeys s)⟩
  rw [suggestions, hcandidates, List.mergeSort_of_pairwise (by decide)]
  rfl

/-- A name with a dot is listed as a path that no lookup finds, and suggested in
    place of itself. -/
theorem checkValue_suggests_fails :
    ¬ ∀ (value : String) (tokens : TokenMap) (path : TokenPath),
      checkValue value tokens = some (.variableNotFound, notFoundMessage path tokens) →
      ∀ s ∈ suggestions path tokens, IsUsable tokens path s := by
  intro h
  have hread : ParsedValue.parse "@theme line.width"
      = .ok ⟨[.reference ⟨⟨"line.width"⟩, .atRule, false⟩]⟩ :=
    Outcome.toOption_eq_some_iff.mp (by decide +kernel)
  have hreport : checkValue "@theme line.width" (TokenMap.empty.insertText "line.width" "1px")
      = some (.variableNotFound,
        notFoundMessage ⟨"line.width"⟩ (TokenMap.empty.insertText "line.width" "1px")) := by
    rw [checkValue, if_pos (by decide +kernel), hread]
    rfl
  have hself : suggestions ⟨"line.width"⟩ (TokenMap.empty.insertText "line.width" "1px")
      = ["line.width"] := by
    decide +kernel
  have husable := h _ _ _ hreport "line.width" (hself ▸ List.mem_singleton_self _)
  exact husable.other rfl

end Lint

end ThemeTokens
