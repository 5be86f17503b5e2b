import Mathlib.Data.List.Basic
import ThemeTokens.Proofs.Selector
import ThemeTokens.Proofs.Text.Trim

/-! # Where the class of a theme goes

    A branch may mark the element that carries the class of a theme.  The
    marker is dropped first, and where the class goes is then decided by the
    text that is left, so what stood in front of the marker is not known any
    more.  The class lands on the marked element where nothing stood there, or
    where the universal selector was all there was; in front of any other text
    it lands on the first element of the branch, or runs into its name
    (`scope_marked`, `scope_marked_fails`). -/

namespace ThemeTokens

/-! ## The amount of white space -/

namespace Text

/-- The text with each run of blanks written as one space. -/
def collapsed : List Char → List Char
  | [] => []
  | c :: cs =>
      if isBlank c then
        if cs.head?.any isBlank then collapsed cs else ' ' :: collapsed cs
      else c :: collapsed cs

/-- The texts differ in the amount of white space at most. -/
def AlikeButBlanks (text other : String) : Prop :=
  collapsed text.toList = collapsed other.toList

instance (text other : String) : Decidable (AlikeButBlanks text other) :=
  inferInstanceAs (Decidable (_ = _))

theorem collapsed_cons_of_not_blank {c : Char} (h : isBlank c = false) (cs : List Char) :
    collapsed (c :: cs) = c :: collapsed cs := by
  rw [collapsed, h, if_neg Bool.false_ne_true]

/-- What stands in front of two texts only has to know whether they begin with a
    blank. -/
theorem collapsed_append_congr {v w : List Char} (hhead : v.head?.any isBlank = w.head?.any isBlank)
    (h : collapsed v = collapsed w) (u : List Char) : collapsed (u ++ v) = collapsed (u ++ w) := by
  induction u with
  | nil => exact h
  | cons c u ih =>
      have hnext : (u ++ v).head?.any isBlank = (u ++ w).head?.any isBlank := by
        cases u with
        | nil => exact hhead
        | cons d u => rfl
      rw [List.cons_append, List.cons_append, collapsed, collapsed, ih, hnext]

/-- The blanks in front of a text are one space. -/
theorem collapsed_of_blank {v : List Char} (h : v.head?.any isBlank = true) :
    collapsed v = ' ' :: collapsed (trimStart v) := by
  induction v with
  | nil => cases h
  | cons c v ih =>
      have hc : isBlank c = true := h
      rw [trimStart_cons, if_pos hc, collapsed, if_pos hc]
      by_cases hv : v.head?.any isBlank = true
      · rw [if_pos hv, ih hv]
      · have hstay : trimStart v = v := trimStart_of_head fun d hd => by
          rw [Option.mem_def.mp hd] at hv
          exact Bool.eq_false_iff.mpr hv
        rw [if_neg hv, hstay]

/-- One space is as good as the blanks in front of a text. -/
theorem collapsed_space_trimStart {v : List Char} (h : v.head?.any isBlank = true) :
    collapsed (' ' :: trimStart v) = collapsed v := by
  have hstay : trimStart (' ' :: trimStart v) = trimStart v := by
    rw [trimStart_cons, if_pos (by decide)]
    exact trimStart_of_head (head?_dropWhile_blank v)
  rw [collapsed_of_blank h, collapsed_of_blank (v := ' ' :: trimStart v) rfl, hstay]

/-- What has no blanks stays in front as it is. -/
theorem collapsed_append_of_not_blank {u : List Char} (h : ∀ c ∈ u, isBlank c = false)
    (v : List Char) : collapsed (u ++ v) = u ++ collapsed v := by
  induction u with
  | nil => rfl
  | cons c u ih =>
      obtain ⟨hc, hu⟩ := List.forall_mem_cons.mp h
      rw [List.cons_append, collapsed_cons_of_not_blank hc, ih hu, List.cons_append]

/-- Up to the first blank a text is collapsed to itself. -/
theorem takeWhile_collapsed (u : List Char) :
    (collapsed u).takeWhile (fun c => !isBlank c) = u.takeWhile fun c => !isBlank c := by
  induction u with
  | nil => rfl
  | cons c u ih =>
      by_cases hc : isBlank c = true
      · rw [collapsed_of_blank (v := c :: u) hc, List.takeWhile_cons_of_neg (by decide),
          List.takeWhile_cons_of_neg (by simp [hc])]
      · rw [Bool.not_eq_true] at hc
        rw [collapsed_cons_of_not_blank hc, List.takeWhile_cons_of_pos (by simp [hc]),
          List.takeWhile_cons_of_pos (by simp [hc]), ih]

end Text

namespace Selector

/-! ## Branches -/

/-- How many parentheses and brackets are open behind a character. -/
def deepen (depth : Nat) (c : Char) : Nat :=
  if c = '(' ∨ c = '[' then depth + 1 else if c = ')' ∨ c = ']' then depth - 1 else depth

/-- A single branch as it stands in a list: no comma is outside of parentheses
    and brackets, no line breaks off, and no blanks are around it. -/
structure IsBranch (branch : String) : Prop where
  commas : ∀ front rest, branch.toList = front ++ ',' :: rest → front.foldl deepen 0 ≠ 0
  lines : ∀ c ∈ branch.toList, c ≠ '\n' ∧ c ≠ '\r'
  trimmed : Text.Trimmed branch.toList

/-- A text without a comma is a single branch. -/
theorem IsBranch.of_no_comma {branch : String} (hcomma : ',' ∉ branch.toList)
    (hline : '\n' ∉ branch.toList) (hreturn : '\r' ∉ branch.toList)
    (htrimmed : Text.Trimmed branch.toList) : IsBranch branch where
  commas _ _ h := absurd (h ▸ List.mem_append_right _ List.mem_cons_self) hcomma
  lines _ hc := ⟨fun h => hline (h ▸ hc), fun h => hreturn (h ▸ hc)⟩
  trimmed := htrimmed

/-- Without a comma at depth zero there is one piece. -/
theorem pieces_of_no_comma {depth : Nat} {cs : List Char}
    (h : ∀ front rest, cs = front ++ ',' :: rest → front.foldl deepen depth ≠ 0) :
    pieces depth cs = [cs] := by
  induction cs generalizing depth with
  | nil => rfl
  | cons c cs ih =>
      have hcomma : ¬ (c = ',' ∧ depth = 0) := by
        rintro ⟨rfl, rfl⟩
        exact h [] cs rfl rfl
      have hrest : pieces (deepen depth c) cs = [cs] := ih fun front rest hcs =>
        h (c :: front) rest (by rw [hcs, List.cons_append])
      rw [pieces, if_neg hcomma]
      dsimp only
      rw [← deepen, hrest]

/-- A branch has been cleaned. -/
theorem IsBranch.clean {branch : String} (h : IsBranch branch) :
    cleanBranch branch.toList = branch.toList := by
  have hfilter : branch.toList.filter (fun c => !(c == '\n' || c == '\r')) = branch.toList := by
    refine List.filter_eq_self.mpr fun c hc => ?_
    obtain ⟨hn, hr⟩ := h.lines c hc
    rw [beq_false_of_ne hn, beq_false_of_ne hr]
    rfl
  have haround := Text.trim_around (List.forall_mem_nil _) (List.forall_mem_nil _) h.trimmed
  rw [List.nil_append, List.append_nil] at haround
  rw [cleanBranch, hfilter, haround]

/-- A branch is its own only branch. -/
theorem split_of_isBranch {branch : String} (h : IsBranch branch) : split branch = [branch] := by
  rw [split, branches, pieces_of_no_comma h.commas, List.map_singleton, h.clean,
    List.map_singleton, String.ofList_toList]

/-! ## The marker -/

/-- The marker stands between the texts, and nowhere else. -/
def MarkedOnce (u v : List Char) : Prop :=
  ∀ front rest, u ++ rootMarker ++ v = front ++ rootMarker ++ rest → front = u

namespace MarkedOnce

variable {u v : List Char}

/-- Without colons there is no other marker. -/
theorem of_no_colon (hu : ':' ∉ u) (hv : ':' ∉ v) : MarkedOnce u v := by
  intro front rest h
  have hrest : ':' ∉ "theme-root".toList ++ v := by
    rw [List.mem_append, not_or]
    exact ⟨by decide, hv⟩
  rw [List.append_assoc, List.append_assoc] at h
  exact ((List.append_cons_inj_of_notMem hu hrest).mp h).1.symm

variable (h : MarkedOnce u v)

include h

/-- The marker is found where it was put. -/
theorem cut? : Text.cut? rootMarker (u ++ rootMarker ++ v) = some (u, v) := by
  have hsome : (Text.cut? rootMarker (u ++ rootMarker ++ v)).isSome = true :=
    Text.isSome_cut?_iff.mpr ⟨u, v, rfl⟩
  obtain ⟨⟨front, rest⟩, hcut⟩ := Option.isSome_iff_exists.mp hsome
  have hsplit := Text.eq_of_cut? hcut
  obtain rfl := h front rest hsplit
  rw [hcut, List.append_cancel_left hsplit]

theorem cut?_behind : Text.cut? rootMarker v = none := by
  cases hcut : Text.cut? rootMarker v with
  | none => rfl
  | some parts =>
      obtain ⟨front, rest⟩ := parts
      -- A marker in `v` would be one more.
      have hmore : u ++ rootMarker ++ v = u ++ rootMarker ++ front ++ rootMarker ++ rest := by
        rw [Text.eq_of_cut? hcut]
        simp only [List.append_assoc]
      have hlen := congrArg List.length (h _ rest hmore)
      rw [List.length_append, List.length_append] at hlen
      have hmarker : 0 < rootMarker.length := List.length_pos_iff.mpr (by decide)
      omega

/-- Without an argument the marker is all that is dropped. -/
theorem dropMarkers (hparen : v.head? ≠ some '(') :
    dropMarkers (u ++ rootMarker ++ v) = u ++ v := by
  have hnone : argument? v = none := by
    unfold argument?
    split
    · exact absurd rfl hparen
    · rfl
  rw [dropMarkers_of_bare h.cut? hnone, dropMarkers_of_none h.cut?_behind]

end MarkedOnce

/-! ## Scoping -/

/-- Nothing stands in front of the marker, or a universal selector is all there
    is besides it. -/
def MarksFront (u v : String) : Prop :=
  u = "" ∧ v ≠ "*" ∨ u = "*" ∧ v = ""

theorem toList_marked (u v : String) :
    (u ++ ":theme-root" ++ v).toList = u.toList ++ rootMarker ++ v.toList := by
  rw [String.toList_append, String.toList_append]
  rfl

/-- Where the class is put in a branch whose text without the marker is known. -/
def placed (className : List Char) (stripped : List Char) : List Char :=
  if stripped = ['*'] then '*' :: className
  else if stripped.head?.any Text.isBlank then className ++ ' ' :: Text.trimStart stripped
  else className ++ stripped

/-- On a single marked branch the class is placed in the text without the marker. -/
theorem toList_scope {u v : String} (hbranch : IsBranch (u ++ ":theme-root" ++ v))
    (honly : MarkedOnce u.toList v.toList) (hparen : v.toList.head? ≠ some '(')
    (className : String) :
    (scope (u ++ ":theme-root" ++ v) className).toList
      = placed className.toList (u.toList ++ v.toList) := by
  have hroot : hasThemeRoot (u ++ ":theme-root" ++ v) = true := by
    rw [hasThemeRoot, Text.occurs_iff_isInfix, toList_marked]
    exact ⟨u.toList, v.toList, rfl⟩
  have hstrip : (stripMarker (u ++ ":theme-root" ++ v)).toList = u.toList ++ v.toList := by
    rw [stripMarker, toList_marked, honly.dropMarkers hparen, String.toList_ofList]
  rw [scope, split_of_isBranch hbranch, List.map_singleton, joinBranches_singleton, if_pos hroot]
  dsimp only
  rw [hstrip, placed]
  split
  · rename_i hstar
    rw [if_pos hstar, String.toList_append]
    rfl
  · rename_i hstar
    rw [if_neg hstar]
    split
    · simp [String.toList_append]
    · rw [String.toList_append, hstrip]

/-- A class in front of a text cannot be told from one behind it exactly where
    the two commute. -/
theorem collapsed_swap_iff {c : List Char} (hc : ∀ d ∈ c, Text.isBlank d = false) (hne : c ≠ [])
    (u v : List Char) :
    Text.collapsed (c ++ (u ++ v)) = Text.collapsed (u ++ c ++ v) ↔ c ++ u = u ++ c := by
  refine ⟨fun h => ?_, fun h => by rw [← List.append_assoc, h]⟩
  by_cases hu : ∀ d ∈ u, Text.isBlank d = false
  · rw [List.append_assoc, Text.collapsed_append_of_not_blank hc,
      Text.collapsed_append_of_not_blank hu, Text.collapsed_append_of_not_blank hu,
      Text.collapsed_append_of_not_blank hc, ← List.append_assoc, ← List.append_assoc] at h
    exact List.append_cancel_right h
  · -- Up to the first blank, one text is longer than the other by the class.
    have hshort : ¬ (u.takeWhile fun d => !Text.isBlank d).length = u.length := by
      intro hlen
      have hall := (List.takeWhile_prefix _).eq_of_length hlen
      rw [List.takeWhile_eq_self_iff] at hall
      exact hu fun d hd => Bool.not_eq_true' _ ▸ hall d hd
    have hrun := congrArg (List.takeWhile fun d => !Text.isBlank d) h
    rw [Text.takeWhile_collapsed, Text.takeWhile_collapsed, List.append_assoc u c v,
      List.takeWhile_append_of_pos fun d hd => by rw [hc d hd]; rfl,
      List.takeWhile_append, List.takeWhile_append, if_neg hshort, if_neg hshort] at hrun
    have hlen := congrArg List.length hrun
    have hpos := List.length_pos_iff.mpr hne
    rw [List.length_append] at hlen
    omega

section

variable {u v className : String} (hbranch : IsBranch (u ++ ":theme-root" ++ v))
  (honly : MarkedOnce u.toList v.toList) (hparen : v.toList.head? ≠ some '(')
  (hclass : className.toList.head? = some '.')

include hbranch honly hparen

/-- Where the marker is at the front, the class takes its place. -/
theorem scope_of_marksFront (hfront : MarksFront u v) :
    Text.AlikeButBlanks (scope (u ++ ":theme-root" ++ v) className) (u ++ className ++ v) := by
  rw [Text.AlikeButBlanks, toList_scope hbranch honly hparen, String.toList_append,
    String.toList_append]
  obtain ⟨rfl, hv⟩ | ⟨rfl, rfl⟩ := hfront
  · have hstar : ¬ "".toList ++ v.toList = ['*'] := fun h => hv (String.toList_injective h)
    rw [placed, if_neg hstar]
    split
    · rename_i hblank
      exact Text.collapsed_append_congr (hblank.symm ▸ rfl)
        (Text.collapsed_space_trimStart hblank) _
    · rfl
  · have hstar : "*".toList ++ "".toList = ['*'] := rfl
    rw [placed, if_pos hstar]
    exact congrArg Text.collapsed (List.append_nil _).symm

/-- Behind anything else it goes in front of the whole branch. -/
theorem toList_scope_of_not_marksFront (hfront : ¬ MarksFront u v) (hu : u ≠ "") :
    (scope (u ++ ":theme-root" ++ v) className).toList
      = className.toList ++ (u.toList ++ v.toList) := by
  have hne : u.toList ≠ [] := fun h => hu (String.toList_injective h)
  have hstar : ¬ u.toList ++ v.toList = ['*'] := by
    intro h
    obtain ⟨hnil, -⟩ | ⟨hone, hnil⟩ := List.append_eq_singleton_iff.mp h
    · exact hne hnil
    · exact hfront (.inr ⟨String.toList_injective hone, String.toList_injective hnil⟩)
  have hblank : ¬ (u.toList ++ v.toList).head?.any Text.isBlank = true := by
    have htrimmed := hbranch.trimmed.1
    rw [toList_marked, List.append_assoc] at htrimmed
    cases hcs : u.toList with
    | nil => exact absurd hcs hne
    | cons c cs =>
        rw [hcs] at htrimmed
        exact Bool.eq_false_iff.mp (htrimmed c rfl)
  rw [toList_scope hbranch honly hparen, placed, if_neg hstar, if_neg hblank]

/-- **THE MARKED ELEMENT**: the class takes the place of a marker at the front
    of a branch.  Behind anything else it goes in front of the branch, which is
    the same text only where the class commutes with what stands in front of
    the marker. -/
theorem scope_marked (hclass : className.toList.head? = some '.') :
    (MarksFront u v →
      Text.AlikeButBlanks (scope (u ++ ":theme-root" ++ v) className) (u ++ className ++ v)) ∧
    (¬ MarksFront u v → (∀ c ∈ className.toList, Text.isBlank c = false) →
      (Text.AlikeButBlanks (scope (u ++ ":theme-root" ++ v) className) (u ++ className ++ v) ↔
        u ≠ "" ∧ className ++ u = u ++ className)) := by
  refine ⟨scope_of_marksFront hbranch honly hparen, fun hfront hc => ?_⟩
  obtain ⟨cs, hcs⟩ := List.head?_eq_some_iff.mp hclass
  have hne : className.toList ≠ [] := hcs ▸ List.cons_ne_nil _ _
  by_cases hu : u = ""
  · -- A universal selector behind the marker stays in front of the class.
    subst hu
    have hv : v = "*" := by
      by_contra hv
      exact hfront (.inl ⟨rfl, hv⟩)
    subst hv
    refine iff_of_false (fun h => ?_) fun h => h.1 rfl
    have hstar : "".toList ++ "*".toList = ['*'] := rfl
    rw [Text.AlikeButBlanks, toList_scope hbranch honly hparen, placed, if_pos hstar,
      String.toList_append, String.toList_append, hcs] at h
    cases h
  · rw [Text.AlikeButBlanks, toList_scope_of_not_marksFront hbranch honly hparen hfront hu,
      String.toList_append, String.toList_append, collapsed_swap_iff hc hne,
      ← String.toList_append, ← String.toList_append, String.toList_inj]
    exact (and_iff_right hu).symm

end

/-- At the front of a branch both classes take the place of the marker. -/
theorem scope_marked_child :
    Text.AlikeButBlanks (scope ("" ++ ":theme-root" ++ " > .a") ".mint.dark")
      ("" ++ ".mint.dark" ++ " > .a") :=
  (scope_marked (.of_no_comma (by decide) (by decide) (by decide) (by decide))
    (.of_no_colon (by decide) (by decide)) (by decide) (by decide)).1 (.inl ⟨rfl, by decide⟩)

/-- The class does not reach a marker behind a type selector: it runs into the
    name of the element. -/
theorem scope_marked_fails :
    ¬ ∀ u v className : String, IsBranch (u ++ ":theme-root" ++ v) →
      MarkedOnce u.toList v.toList → v.toList.head? ≠ some '(' →
      className.toList.head? = some '.' →
      Text.AlikeButBlanks (scope (u ++ ":theme-root" ++ v) className) (u ++ className ++ v) := by
  intro h
  have hbody := h "body" " .a" ".mint"
    (.of_no_comma (by decide) (by decide) (by decide) (by decide))
    (.of_no_colon (by decide) (by decide)) (by decide) (by decide)
  exact absurd hbody (by decide +kernel)

end Selector

end ThemeTokens
