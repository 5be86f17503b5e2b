import ThemeTokens.Proofs.Modern.Author
import ThemeTokens.Proofs.Selector
import ThemeTokens.Proofs.Stylesheet
import ThemeTokens.Proofs.Text.Trim

/-! # Markers that are left

    Dropping the markers cuts a branch into fragments and puts these together
    again.  What stands between markers was searched and has none
    (`not_infix_outside`).  What parentheses hold was not, so a marker in it is
    left; and where the fragments close up, the end of one and what follows can
    make up a new marker.  There is no other way for a marker to be left, in a
    selector (`hasThemeRoot_stripThemeRoot`) or in the rules of modern output
    (`apply_leaves_markers`). -/

namespace ThemeTokens

/-! ## Marks across texts -/

namespace Text

/-- The mark begins in the first text and ends in the second. -/
def Straddles (mark u v : List Char) : Prop :=
  ∃ k < mark.length, 0 < k ∧ mark.take k <:+ u ∧ mark.drop k <+: v

instance (mark u v : List Char) : Decidable (Straddles mark u v) :=
  inferInstanceAs (Decidable (∃ k < mark.length, 0 < k ∧ mark.take k <:+ u ∧ mark.drop k <+: v))

/-- The mark begins in one of the texts and ends in a later one. -/
def ClosesUp (mark : List Char) : List (List Char) → Prop
  | [] => False
  | piece :: pieces => Straddles mark piece pieces.flatten ∨ ClosesUp mark pieces

instance decidableClosesUp (mark : List Char) :
    ∀ pieces : List (List Char), Decidable (ClosesUp mark pieces)
  | [] => inferInstanceAs (Decidable False)
  | piece :: pieces =>
      have := decidableClosesUp mark pieces
      inferInstanceAs (Decidable (Straddles mark piece pieces.flatten ∨ ClosesUp mark pieces))

variable {mark : List Char}

/-- A mark in two texts put together is in one of them, or straddles the border. -/
theorem infix_append_iff_straddles {u v : List Char} :
    mark <:+: u ++ v ↔ mark <:+: u ∨ mark <:+: v ∨ Straddles mark u v := by
  rw [List.infix_append_iff]
  constructor
  · rintro (hu | hv | ⟨front, back, rfl, hfront, hback⟩)
    · exact .inl hu
    · exact .inr (.inl hv)
    · by_cases hfrontnil : front = []
      · rw [hfrontnil]
        exact .inr (.inl hback.isInfix)
      by_cases hbacknil : back = []
      · rw [hbacknil, List.append_nil]
        exact .inl hfront.isInfix
      refine .inr (.inr ⟨front.length, ?_, List.length_pos_iff.mpr hfrontnil, ?_, ?_⟩)
      · rw [List.length_append]
        exact Nat.lt_add_of_pos_right (List.length_pos_iff.mpr hbacknil)
      · rwa [List.take_left]
      · rwa [List.drop_left]
  · rintro (hu | hv | ⟨k, -, -, hfront, hback⟩)
    · exact .inl hu
    · exact .inr (.inl hv)
    · exact .inr (.inr ⟨_, _, (List.take_append_drop k mark).symm, hfront, hback⟩)

/-- **PUT TOGETHER**: a mark in texts put together is in one of them or across
    the end of one. -/
theorem infix_flatten_iff (hmark : mark ≠ []) (pieces : List (List Char)) :
    mark <:+: pieces.flatten ↔ (∃ piece ∈ pieces, mark <:+: piece) ∨ ClosesUp mark pieces := by
  induction pieces with
  | nil => simp [ClosesUp, hmark]
  | cons piece pieces ih =>
      rw [List.flatten_cons, infix_append_iff_straddles, ih, ClosesUp]
      simp only [List.mem_cons, exists_eq_or_imp]
      rw [or_assoc, or_assoc, or_comm (a := Straddles mark piece pieces.flatten)]

/-- The text in front of a mark that is cut at is searched. -/
theorem not_infix_of_cut? {text before rest : List Char} (hmark : mark ≠ [])
    (h : cut? mark text = some (before, rest)) : ¬ mark <:+: before := by
  induction text generalizing before with
  | nil =>
      obtain ⟨r, -, hr⟩ := Option.map_eq_some_iff.mp h
      rw [← (Prod.mk.inj hr).1, List.infix_nil]
      exact hmark
  | cons c cs ih =>
      have htext := eq_of_cut? h
      rw [cut?] at h
      split at h
      · rw [← (Prod.mk.inj (Option.some.inj h)).1, List.infix_nil]
        exact hmark
      · rename_i hnone
        obtain ⟨⟨b, r⟩, hcut, hbr⟩ := Option.map_eq_some_iff.mp h
        obtain ⟨rfl, rfl⟩ := Prod.mk.inj hbr
        rw [List.infix_cons_iff, not_or]
        refine ⟨fun hfront => ?_, ih hcut⟩
        -- The text begins with a mark only if it is cut there.
        rw [List.append_assoc] at htext
        have hsome := isSome_after?_iff.mpr (htext ▸ hfront.trans (List.prefix_append _ _))
        rw [hnone] at hsome
        cases hsome

end Text

namespace Selector

/-! ## Fragments of a branch -/

/-- What dropping the markers keeps of a branch. -/
inductive Fragment where
  /-- A text between markers. -/
  | outside (text : List Char)
  /-- What the parentheses behind a marker hold. -/
  | argument (text : List Char)
  deriving DecidableEq, Repr

namespace Fragment

/-- What is kept, as written. -/
def text : Fragment → List Char
  | outside text => text
  | argument text => text

/-- There is a marker in the argument of another. -/
def Nests : Fragment → Prop
  | outside _ => False
  | argument text => rootMarker <:+: text

instance : DecidablePred Nests
  | outside _ => inferInstanceAs (Decidable False)
  | argument text => decidable_of_iff (Text.occurs rootMarker text = true) Text.occurs_iff_isInfix

end Fragment

/-- The fragments of a branch, in order. -/
def fragments (branch : List Char) : List Fragment :=
  match _h : Text.cut? rootMarker branch with
  | none => [.outside branch]
  | some (before, rest) =>
      match _ha : argument? rest with
      | some (inside, rest) => .outside before :: .argument inside :: fragments rest
      | none => .outside before :: fragments rest
termination_by branch.length
decreasing_by
  · exact Nat.lt_trans (length_argument? _ha) (length_cut? _h (by decide))
  · exact length_cut? _h (by decide)

/-- What is left of a branch is its fragments. -/
theorem dropMarkers_eq (branch : List Char) :
    dropMarkers branch = ((fragments branch).map Fragment.text).flatten := by
  fun_induction fragments branch with
  | case1 branch hcut =>
      rw [dropMarkers_of_none hcut, List.map_singleton, List.flatten_singleton, Fragment.text]
  | case2 branch before rest hcut inside behind harg ih =>
      rw [dropMarkers_of_argument hcut harg, ih, List.append_assoc]
      rfl
  | case3 branch before rest hcut harg ih =>
      rw [dropMarkers_of_bare hcut harg, ih]
      rfl

/-- Outside of arguments no marker is left. -/
theorem not_infix_outside {branch text : List Char} (h : .outside text ∈ fragments branch) :
    ¬ rootMarker <:+: text := by
  fun_induction fragments branch with
  | case1 branch hcut =>
      obtain rfl := Fragment.outside.inj (List.mem_singleton.mp h)
      rw [← Text.isSome_cut?_iff, hcut]
      exact Bool.false_ne_true
  | case2 branch before rest hcut inside behind harg ih =>
      rcases List.mem_cons.mp h with heq | h
      · obtain rfl := Fragment.outside.inj heq
        exact Text.not_infix_of_cut? (by decide) hcut
      · exact ih ((List.mem_cons.mp h).resolve_left nofun)
  | case3 branch before rest hcut harg ih =>
      rcases List.mem_cons.mp h with heq | h
      · obtain rfl := Fragment.outside.inj heq
        exact Text.not_infix_of_cut? (by decide) hcut
      · exact ih h

/-- A marker in a fragment is one nested in the argument that was copied. -/
theorem infix_text_iff {branch : List Char} {f : Fragment} (h : f ∈ fragments branch) :
    rootMarker <:+: f.text ↔ f.Nests := by
  cases f with
  | outside text => exact iff_of_false (not_infix_outside h) id
  | argument text => rfl

/-- A marker is left of the branch: it is in the argument of another, or made up
    where fragments close up. -/
def Survives (branch : List Char) : Prop :=
  (∃ f ∈ fragments branch, f.Nests)
    ∨ Text.ClosesUp rootMarker ((fragments branch).map Fragment.text)

instance : DecidablePred Survives := fun _ => inferInstanceAs (Decidable (_ ∨ _))

/-- Dropping the markers of a branch leaves one exactly where one survives. -/
theorem infix_dropMarkers_iff (branch : List Char) :
    rootMarker <:+: dropMarkers branch ↔ Survives branch := by
  rw [dropMarkers_eq, Text.infix_flatten_iff (by decide), Survives]
  simp only [List.mem_map, exists_exists_and_eq_and]
  exact or_congr_left (exists_congr fun f => and_congr_right infix_text_iff)

/-! ## Selector lists -/

theorem rootMarker_eq_cons : rootMarker = ':' :: "theme-root".toList := by decide

theorem rootMarker_eq_concat : rootMarker = ":theme-roo".toList ++ ['t'] := by decide

/-- No part of a marker is trimmed. -/
theorem infix_trim_iff (cs : List Char) : rootMarker <:+: Text.trim cs ↔ rootMarker <:+: cs := by
  obtain ⟨front, back, hcs, hfront, hback⟩ := Text.exists_trim cs
  have hcolon : ':' ∉ front := fun h => absurd (hfront ':' h) (by decide)
  have hlast : 't' ∉ back := fun h => absurd (hback 't' h) (by decide)
  conv_rhs => rw [hcs, rootMarker_eq_concat, Text.infix_append_right_iff hlast,
    ← rootMarker_eq_concat, rootMarker_eq_cons, Text.infix_append_left_iff hcolon,
    ← rootMarker_eq_cons]

/-- Neither the comma nor the space between branches is in a marker. -/
theorem hasThemeRoot_joinBranches (parts : List String) :
    hasThemeRoot (joinBranches parts) = true ↔ ∃ part ∈ parts, hasThemeRoot part = true := by
  have hglue : ", ".toList = ',' :: [' '] := rfl
  simp only [hasThemeRoot, Text.occurs_iff_isInfix]
  rw [joinBranches, String.toList_ofList, hglue, rootMarker_eq_cons,
    Text.infix_joinWith_iff (by decide) (by decide)]
  simp only [List.mem_map, exists_exists_and_eq_and]

/-- A selector list is left with a marker. -/
def LeavesMarker (selector : String) : Prop :=
  hasThemeRoot selector = true ∧ ∃ branch ∈ branches selector.toList, Survives branch

instance : DecidablePred LeavesMarker := fun _ => inferInstanceAs (Decidable (_ ∧ _))

/-- **MARKERS LEFT**: a selector list keeps a marker where a branch does. -/
theorem hasThemeRoot_stripThemeRoot (selector : String) :
    hasThemeRoot (stripThemeRoot selector) = true ↔ LeavesMarker selector := by
  rw [LeavesMarker, stripThemeRoot]
  by_cases hroot : hasThemeRoot selector = true
  · rw [if_pos hroot, hasThemeRoot_joinBranches, and_iff_right hroot]
    simp only [List.mem_map, exists_exists_and_eq_and, hasThemeRoot, Text.occurs_iff_isInfix,
      String.toList_ofList, infix_trim_iff, infix_dropMarkers_iff]
  · rw [if_neg hroot]
    exact iff_of_false hroot fun h => hroot h.1

end Selector

/-! ## Modern output -/

namespace Modern

namespace Replacement

variable {put : Replacement}

/-- The selector of a written rule is the author's without its markers. -/
theorem rule_selector {r out : Rule} (h : put.rule r = .ok out) :
    out.selector = Selector.stripThemeRoot r.selector := by
  obtain ⟨ds, -, h⟩ := Outcome.bind_eq_ok.mp h
  rw [← Except.ok.inj h]

/-- Each rule loses its markers, wherever it stands. -/
theorem sheet_selectors {sheet out : Stylesheet} (h : put.sheet sheet = .ok out) :
    out.rules.map Rule.selector
      = sheet.rules.map fun r => Selector.stripThemeRoot r.selector := by
  have hrules := Stylesheet.mapM_rules
    (R := fun r out => out.selector = Selector.stripThemeRoot r.selector)
    (fun _ _ hr => rule_selector hr) h
  rw [← List.forall₂_eq_eq_eq, List.forall₂_map_left_iff, List.forall₂_map_right_iff]
  exact hrules.flip

end Replacement

/-- **MARKERS LEFT**: dropping the markers of a selector leaves one exactly where a
    branch has a marker in the argument of another, or closes up to one.  In modern
    output the author's rules come first, with these selectors, and a marker is in
    one of them exactly where it is left in that way. -/
theorem apply_leaves_markers (selector : String) :
    (Selector.hasThemeRoot (Selector.stripThemeRoot selector) = true
        ↔ Selector.LeavesMarker selector)
      ∧ ∀ (config : ResolvedConfig) (options : OutputOptions) (localizer : Localizer)
          (sheet out : Stylesheet) (warnings : List Warning),
        apply config options localizer sheet = .ok (out, warnings) →
        ∃ usage rules, VariableUsage.analyze sheet = .ok usage
          ∧ out.rules = rules ++ blocks config options localizer usage
          ∧ rules.map Rule.selector
            = sheet.rules.map (fun r => Selector.stripThemeRoot r.selector)
          ∧ ((∃ r ∈ rules, Selector.hasThemeRoot r.selector = true)
            ↔ ∃ r ∈ sheet.rules, Selector.LeavesMarker r.selector) := by
  refine ⟨Selector.hasThemeRoot_stripThemeRoot selector, ?_⟩
  intro config options localizer sheet out warnings h
  obtain ⟨usage, author, husage, hauthor, rfl, -⟩ := apply_eq_ok.mp h
  have hselectors := Replacement.sheet_selectors hauthor
  refine ⟨usage, author.rules, husage, author.rules_appendRules _, hselectors, ?_⟩
  -- Only the selectors count, and they are listed in the same order.
  have hmarked : (∃ r ∈ author.rules, Selector.hasThemeRoot r.selector = true)
      ↔ ∃ selector ∈ author.rules.map Rule.selector, Selector.hasThemeRoot selector = true := by
    simp only [List.mem_map, exists_exists_and_eq_and]
  rw [hmarked, hselectors]
  simp only [List.mem_map, exists_exists_and_eq_and, Selector.hasThemeRoot_stripThemeRoot]

/-- A marker in the argument of another, one that closes up, and two that are
    dropped for good. -/
def banner : Stylesheet := ⟨[
  .rule ⟨":theme-root(:theme-root.a) b", [
    ⟨"color", "@theme ink", ⟨2, 3⟩⟩,
    ⟨"fill", "@theme ink", ⟨3, 3⟩⟩], ⟨1, 1⟩⟩,
  .atRules ⟨"media", "print", ⟨5, 1⟩⟩ [
    .rule ⟨":theme:theme-root-root", [⟨"margin", "0", ⟨7, 5⟩⟩], ⟨6, 3⟩⟩,
    .rule ⟨".c, :theme-root(*) .d:theme-root", [⟨"margin", "0", ⟨10, 5⟩⟩], ⟨9, 3⟩⟩]]⟩

/-- One marker is nested in another and one is put together from two halves; both
    are left. -/
theorem banner_leaves_markers : ∃ out, apply blackInk {} ⟨none, none, ""⟩ banner = .ok (out, [])
    ∧ out.rules.map Rule.selector = [":theme-root.a b", ":theme-root", ".c, * .d", ":root"]
    ∧ (∃ usage rules, out.rules = rules ++ blocks blackInk {} ⟨none, none, ""⟩ usage
      ∧ ∃ r ∈ rules, Selector.hasThemeRoot r.selector = true)
    ∧ ¬ Selector.hasThemeRoot
        (Selector.stripThemeRoot ".c, :theme-root(*) .d:theme-root") = true := by
  have hvalue : (apply blackInk {} ⟨none, none, ""⟩ banner).toOption.map
      (fun (out, warnings) => (out.rules.map Rule.selector, warnings))
      = some ([":theme-root.a b", ":theme-root", ".c, * .d", ":root"], []) := by
    decide +kernel
  obtain ⟨⟨out, warnings⟩, happly, hshape⟩ := Outcome.exists_ok_of_map hvalue
  obtain ⟨hselectors, rfl⟩ := Prod.mk.inj hshape
  obtain ⟨hlist, hbanner⟩ := apply_leaves_markers ".c, :theme-root(*) .d:theme-root"
  obtain ⟨usage, rules, -, hrules, -, hmarked⟩ :=
    hbanner blackInk {} ⟨none, none, ""⟩ banner out [] happly
  have hleft : ∃ r ∈ banner.rules, Selector.LeavesMarker r.selector :=
    ⟨_, List.mem_cons_self, by decide +kernel⟩
  exact ⟨out, happly, hselectors, ⟨usage, rules, hrules, hmarked.mpr hleft⟩,
    fun hroot => absurd (hlist.mp hroot) (by decide +kernel)⟩

/-- What the parentheses behind a marker hold is not searched again. -/
theorem stripThemeRoot_unmarked_fails :
    ¬ ∀ selector, Selector.hasThemeRoot (Selector.stripThemeRoot selector) = false := by
  intro h
  exact absurd (h ":theme-root(:theme-root.a)") (by decide +kernel)

end Modern

end ThemeTokens
