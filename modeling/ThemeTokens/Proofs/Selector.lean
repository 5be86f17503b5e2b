import ThemeTokens.Proofs.Text.Search
import ThemeTokens.Selector

/-! # Selector lists put together

    The selectors of blocks are classes and `:root`; blocks with the same
    declarations share a list of them.  Whatever is put behind a list, its
    branches are those of the list and then those of what was put there, and a
    single selector is its own only branch. -/

namespace ThemeTokens

namespace Text

/-- Without blanks nothing is trimmed. -/
theorem trim_of_not_blank {cs : List Char} (h : ∀ c ∈ cs, isBlank c = false) :
    trim cs = cs := by
  have hdrop : ∀ ds : List Char, (∀ c ∈ ds, isBlank c = false) → ds.dropWhile isBlank = ds := by
    intro ds hds
    cases ds with
    | nil => rfl
    | cons d ds =>
        rw [List.dropWhile_cons_of_neg]
        rw [hds d List.mem_cons_self]
        exact Bool.false_ne_true
  rw [trim, trimStart, trimEnd, hdrop cs h, hdrop cs.reverse, List.reverse_reverse]
  exact fun c hc => h c (List.mem_reverse.mp hc)

end Text

namespace Selector

/-- ASCII letters and digits, and the two lines. -/
def isClassChar (c : Char) : Bool :=
  c.isAlphanum || c == '_' || c == '-'

/-- A text that can be the name of a class without escapes. -/
def ClassName (name : String) : Prop :=
  ∀ c ∈ name.toList, isClassChar c = true

instance (name : String) : Decidable (ClassName name) :=
  decidable_of_iff (name.toList.all isClassChar = true) List.all_eq_true

/-- What is in the names of classes, and the marks in front of a class and a
    pseudo-class. -/
def isSimpleChar (c : Char) : Bool :=
  isClassChar c || c == '.' || c == ':'

/-- A selector without combinators, arguments and attributes. -/
def Simple (selector : String) : Prop :=
  ∀ c ∈ selector.toList, isSimpleChar c = true

/-- Nothing in the selector is inside of parentheses or brackets. -/
def Flat (selector : String) : Prop :=
  ∀ c ∈ selector.toList, ¬ (c = '(' ∨ c = '[') ∧ ¬ (c = ')' ∨ c = ']')

/-- The codes of simple characters. -/
theorem toNat_of_simple {c : Char} (h : isSimpleChar c = true) :
    0x2D ≤ c.toNat ∧ c.toNat ≤ 0x7A := by
  change ((((((decide (c.val ≥ 'A'.val ∧ c.val ≤ 'Z'.val)
    || (decide (c.val ≥ 'a'.val) && decide (c.val ≤ 'z'.val)))
    || (decide (c.val ≥ '0'.val) && decide (c.val ≤ '9'.val)))
    || c == '_') || c == '-') || c == '.') || c == ':') = true at h
  simp only [Bool.or_eq_true, Bool.and_eq_true, decide_eq_true_eq, beq_iff_eq,
    UInt32.le_iff_toNat_le, ge_iff_le] at h
  -- The three ranges lie between the codes of the hyphen and of the last letter.
  rcases h with ((((((⟨hl, hu⟩ | ⟨hl, hu⟩) | ⟨hl, hu⟩) | rfl) | rfl) | rfl) | rfl)
  · exact ⟨Nat.le_trans (by decide) hl, Nat.le_trans hu (by decide)⟩
  · exact ⟨Nat.le_trans (by decide) hl, Nat.le_trans hu (by decide)⟩
  · exact ⟨Nat.le_trans (by decide) hl, Nat.le_trans hu (by decide)⟩
  · decide
  · decide
  · decide
  · decide

/-- A simple character is no blank. -/
theorem isBlank_of_simple {c : Char} (h : isSimpleChar c = true) :
    Text.isBlank c = false := by
  obtain ⟨hlow, hhigh⟩ := toNat_of_simple h
  simp only [Text.isBlank, Bool.or_eq_false_iff, Bool.and_eq_false_iff, decide_eq_false_iff_not,
    beq_eq_false_iff_ne]
  omega

theorem ne_of_simple {c d : Char} (h : isSimpleChar c = true) (hd : isSimpleChar d = false) :
    c ≠ d := by
  rintro rfl
  exact Bool.false_ne_true (hd.symm.trans h)

/-- A simple character neither opens nor closes anything. -/
theorem flat_of_simple {c : Char} (h : isSimpleChar c = true) :
    ¬ (c = '(' ∨ c = '[') ∧ ¬ (c = ')' ∨ c = ']') := by
  refine ⟨?_, ?_⟩
  · rintro (rfl | rfl)
    · exact absurd h (by decide)
    · exact absurd h (by decide)
  · rintro (rfl | rfl)
    · exact absurd h (by decide)
    · exact absurd h (by decide)

/-- Nothing in a simple selector is inside of parentheses or brackets. -/
theorem Simple.flat {selector : String} (h : Simple selector) : Flat selector :=
  fun c hc => flat_of_simple (h c hc)

/-- Flat selectors are joined to a flat list. -/
theorem Flat.joined {selector other : String} (h : Flat selector) (ho : Flat other) :
    Flat (selector ++ ", " ++ other) := by
  intro c hc
  rw [String.toList_append, String.toList_append, List.mem_append, List.mem_append] at hc
  rcases hc with (hc | hc) | hc
  · exact h c hc
  · rcases List.mem_cons.mp hc with rfl | hc
    · decide
    · rw [List.mem_singleton.mp hc]
      decide
  · exact ho c hc

/-! ## Branches -/

/-- Even an empty text has a piece. -/
theorem pieces_ne_nil (depth : Nat) (cs : List Char) : pieces depth cs ≠ [] := by
  cases cs with
  | nil => exact List.cons_ne_nil _ _
  | cons c cs =>
      rw [pieces]
      split
      · exact List.cons_ne_nil _ _
      · dsimp only
        split
        · exact List.cons_ne_nil _ _
        · exact List.cons_ne_nil _ _

/-- Outside of parentheses and brackets a character belongs to its piece. -/
theorem pieces_cons_of_flat {c : Char} (h : ¬ (c = '(' ∨ c = '[') ∧ ¬ (c = ')' ∨ c = ']'))
    (hcomma : c ≠ ',') (cs : List Char) :
    pieces 0 (c :: cs) = match pieces 0 cs with
      | [] => [[c]]
      | piece :: rest => (c :: piece) :: rest := by
  have hdepth : (if c = '(' ∨ c = '[' then 0 + 1 else if c = ')' ∨ c = ']' then 0 - 1 else 0)
      = 0 := by
    rw [if_neg h.1, if_neg h.2]
  rw [pieces, if_neg (fun hc => hcomma hc.1)]
  show (match pieces (if c = '(' ∨ c = '[' then 0 + 1
      else if c = ')' ∨ c = ']' then 0 - 1 else 0) cs with
    | [] => [[c]]
    | piece :: rest => (c :: piece) :: rest) = _
  rw [hdepth]

/-- A comma behind a flat selector ends its last piece. -/
theorem pieces_append {selector : List Char}
    (h : ∀ c ∈ selector, ¬ (c = '(' ∨ c = '[') ∧ ¬ (c = ')' ∨ c = ']')) (rest : List Char) :
    pieces 0 (selector ++ ',' :: rest) = pieces 0 selector ++ pieces 0 rest := by
  induction selector with
  | nil =>
      show pieces 0 (',' :: rest) = [] :: pieces 0 rest
      rw [pieces, if_pos ⟨rfl, rfl⟩]
  | cons c cs ih =>
      have hrest := ih fun d hd => h d (List.mem_cons_of_mem _ hd)
      by_cases hcomma : c = ','
      · rw [List.cons_append, pieces, if_pos ⟨hcomma, rfl⟩, pieces, if_pos ⟨hcomma, rfl⟩, hrest]
        rfl
      · have hc := h c List.mem_cons_self
        rw [List.cons_append, pieces_cons_of_flat hc hcomma, pieces_cons_of_flat hc hcomma, hrest]
        cases hp : pieces 0 cs with
        | nil => exact absurd hp (pieces_ne_nil 0 cs)
        | cons piece more => rfl

/-- A space in front of a branch does not count. -/
theorem cleanBranch_space (branch : List Char) :
    cleanBranch (' ' :: branch) = cleanBranch branch := by
  rw [cleanBranch, List.filter_cons_of_pos (by decide), Text.trim, Text.trimStart_cons,
    if_pos (by decide)]
  rfl

/-- **JOINED LISTS**: behind a flat selector the branches go on. -/
theorem split_append {selector : String} (h : Flat selector) (other : String) :
    split (selector ++ ", " ++ other) = split selector ++ split other := by
  -- The blank behind the comma goes to the first piece, which is trimmed.
  have hspace : (pieces 0 (' ' :: other.toList)).map cleanBranch
      = (pieces 0 other.toList).map cleanBranch := by
    rw [pieces_cons_of_flat (by decide) (by decide)]
    cases hp : pieces 0 other.toList with
    | nil => exact absurd hp (pieces_ne_nil 0 _)
    | cons piece rest => rw [List.map_cons, List.map_cons, cleanBranch_space]
  have hlist : (selector ++ ", " ++ other).toList
      = selector.toList ++ ',' :: ' ' :: other.toList := by
    rw [String.toList_append, String.toList_append, List.append_assoc]
    rfl
  rw [split, split, split, branches, branches, branches, hlist, pieces_append h,
    List.map_append, hspace, List.map_append]

/-- A simple selector is its own only branch. -/
theorem split_simple {selector : String} (h : Simple selector) : split selector = [selector] := by
  have hpieces : ∀ cs : List Char, (∀ c ∈ cs, isSimpleChar c = true) → pieces 0 cs = [cs] := by
    intro cs hcs
    induction cs with
    | nil => rfl
    | cons c cs ih =>
        have hc := hcs c List.mem_cons_self
        rw [pieces_cons_of_flat, ih fun d hd => hcs d (List.mem_cons_of_mem _ hd)]
        · exact flat_of_simple hc
        · exact ne_of_simple hc (by decide)
  have hfilter : selector.toList.filter (fun c => !(c == '\n' || c == '\r')) = selector.toList := by
    refine List.filter_eq_self.mpr fun c hc => ?_
    have hn := ne_of_simple (d := '\n') (h c hc) (by decide)
    have hr := ne_of_simple (d := '\r') (h c hc) (by decide)
    rw [beq_false_of_ne hn, beq_false_of_ne hr]
    rfl
  rw [split, branches, hpieces _ h, List.map_singleton, List.map_singleton, cleanBranch, hfilter,
    Text.trim_of_not_blank fun c hc => isBlank_of_simple (h c hc), String.ofList_toList]

/-! ## Dropping markers -/

section Dropping

variable {cs before rest inside behind : List Char}

/-- Without a marker nothing is dropped. -/
theorem dropMarkers_of_none (h : Text.cut? rootMarker cs = none) : dropMarkers cs = cs := by
  rw [dropMarkers]
  split
  · rfl
  · rename_i hcut
    cases h.symm.trans hcut

/-- The parentheses behind a marker go with it. -/
theorem dropMarkers_of_argument (h : Text.cut? rootMarker cs = some (before, rest))
    (ha : argument? rest = some (inside, behind)) :
    dropMarkers cs = before ++ inside ++ dropMarkers behind := by
  rw [dropMarkers]
  split
  · rename_i hcut
    cases h.symm.trans hcut
  · rename_i hcut
    obtain ⟨rfl, rfl⟩ := Prod.mk.inj (Option.some.inj (h.symm.trans hcut))
    split
    · rename_i harg
      obtain ⟨rfl, rfl⟩ := Prod.mk.inj (Option.some.inj (ha.symm.trans harg))
      rfl
    · rename_i harg
      cases ha.symm.trans harg

/-- Without parentheses behind it only the marker is dropped. -/
theorem dropMarkers_of_bare (h : Text.cut? rootMarker cs = some (before, rest))
    (ha : argument? rest = none) : dropMarkers cs = before ++ dropMarkers rest := by
  rw [dropMarkers]
  split
  · rename_i hcut
    cases h.symm.trans hcut
  · rename_i hcut
    obtain ⟨rfl, rfl⟩ := Prod.mk.inj (Option.some.inj (h.symm.trans hcut))
    split
    · rename_i harg
      cases ha.symm.trans harg
    · rfl

end Dropping

/-! ## Listed selectors -/

/-- The selector is one of those that a list was put together from. -/
def Lists (list selector : String) : Prop :=
  ∃ selectors, selector ∈ selectors ∧ list = joinBranches selectors

theorem joinBranches_singleton (selector : String) : joinBranches [selector] = selector :=
  String.ofList_toList

/-- One selector more stands behind a comma and a space. -/
theorem joinBranches_concat {selectors : List String} (h : selectors ≠ []) (last : String) :
    joinBranches (selectors ++ [last]) = joinBranches selectors ++ ", " ++ last := by
  have hne : selectors.map String.toList ≠ [] := fun hnil => h (List.map_eq_nil_iff.mp hnil)
  rw [joinBranches, joinBranches, List.map_append, List.map_singleton,
    Text.joinWith_concat _ hne, String.ofList_append, String.ofList_append, String.ofList_toList,
    String.ofList_toList]

theorem lists_self (selector : String) : Lists selector selector :=
  ⟨[selector], List.mem_singleton_self selector, (joinBranches_singleton selector).symm⟩

/-- The last selector is listed. -/
theorem lists_joined (list selector : String) : Lists (list ++ ", " ++ selector) selector := by
  refine ⟨[list] ++ [selector], List.mem_append_right _ (List.mem_singleton_self selector), ?_⟩
  rw [joinBranches_concat (List.cons_ne_nil _ _), joinBranches_singleton]

/-- What is listed stays listed when another selector is added. -/
theorem Lists.joined {list selector : String} (h : Lists list selector) (other : String) :
    Lists (list ++ ", " ++ other) selector := by
  obtain ⟨selectors, hmem, rfl⟩ := h
  refine ⟨selectors ++ [other], List.mem_append_left _ hmem, ?_⟩
  rw [joinBranches_concat (List.ne_nil_of_mem hmem)]

/-! ## Classes -/

/-- The parts of a selector between the dots. -/
def parts (selector : String) : List (List Char) :=
  Text.splitAt '.' selector.toList

section Classes

variable {name second : String} (hname : ClassName name) (hsecond : ClassName second)

include hname

/-- No name of a class has a dot. -/
theorem ClassName.dot_not_mem : '.' ∉ name.toList := by
  intro hdot
  exact absurd (hname '.' hdot) (by decide)

/-- The class selector of a name has the name behind its dot. -/
theorem parts_class : parts ("." ++ name) = [[], name.toList] := by
  have hlist : ("." ++ name).toList = [] ++ '.' :: name.toList := String.toList_append
  rw [parts, hlist, Text.splitAt_append List.not_mem_nil,
    Text.splitAt_of_not_mem hname.dot_not_mem]

theorem simple_class : Simple ("." ++ name) := by
  intro c hc
  rw [String.toList_append, List.mem_append] at hc
  rcases hc with hc | hc
  · rw [List.mem_singleton.mp hc]
    decide
  · rw [isSimpleChar, hname c hc]
    rfl

include hsecond

/-- Two classes on one element have both names behind their dots. -/
theorem parts_classes : parts ("." ++ name ++ "." ++ second)
    = [[], name.toList, second.toList] := by
  have hlist : ("." ++ name ++ "." ++ second).toList
      = [] ++ '.' :: (name.toList ++ '.' :: second.toList) := by
    rw [String.toList_append, String.toList_append, String.toList_append, List.append_assoc]
    rfl
  rw [parts, hlist, Text.splitAt_append List.not_mem_nil,
    Text.splitAt_append hname.dot_not_mem, Text.splitAt_of_not_mem hsecond.dot_not_mem]

theorem simple_classes : Simple ("." ++ name ++ "." ++ second) := by
  intro c hc
  rw [String.append_assoc, String.toList_append, List.mem_append] at hc
  rcases hc with hc | hc
  · exact simple_class hname c hc
  · exact simple_class hsecond c hc

end Classes

theorem parts_root : parts ":root" = [":root".toList] := by decide

theorem simple_root : Simple ":root" :=
  List.all_eq_true.mp (by decide)

end Selector

end ThemeTokens
