import ThemeTokens.Proofs.Selector.Branches
import ThemeTokens.Proofs.Selector.Scoping

/-! # Branches put together again

    Whether a comma ends a branch is decided by the brackets in front of it,
    and brackets that do not match are counted as well as they can be: one too
    many that closes is ignored, and behind one that stays open no comma ends
    anything any more.  Each piece of a list therefore keeps its commas to
    itself, and all but the last have closed what they opened
    (`commaSeparated_pieces`).

    What is cleaned off a piece is neither a comma nor a bracket, so branches
    have the same outline as their pieces, and putting them together with a
    comma and a space gives a list that is cut at the same places
    (`split_joinBranches_iff`, `split_rejoined`). -/

namespace ThemeTokens

namespace Selector

/-! ## Pieces -/

/-- From `depth` on, no comma is outside of parentheses and brackets. -/
def KeepsCommas (depth : Nat) (cs : List Char) : Prop :=
  ∀ front rest, cs = front ++ ',' :: rest → front.foldl deepen depth ≠ 0

theorem keepsCommas_nil (depth : Nat) : KeepsCommas depth [] := by
  intro front rest h
  exact absurd h.symm (List.append_ne_nil_of_right_ne_nil _ (List.cons_ne_nil _ _))

/-- A text keeps its commas if its first character is none outside of all brackets,
    and the rest keeps its own behind that character. -/
theorem keepsCommas_cons_iff {depth : Nat} {c : Char} {cs : List Char} :
    KeepsCommas depth (c :: cs)
      ↔ ¬ (c = ',' ∧ depth = 0) ∧ KeepsCommas (deepen depth c) cs := by
  constructor
  · intro h
    refine ⟨?_, fun front rest hcs => h (c :: front) rest (by rw [hcs, List.cons_append])⟩
    rintro ⟨rfl, rfl⟩
    exact h [] cs rfl rfl
  · rintro ⟨hc, h⟩ front rest hcs
    cases front with
    | nil => exact fun hdepth => hc ⟨(List.cons.inj hcs).1, hdepth⟩
    | cons d front =>
        obtain ⟨rfl, htail⟩ := List.cons.inj hcs
        exact h front rest htail

/-- A text that keeps its commas is not cut. -/
theorem KeepsCommas.leads {depth : Nat} {cs : List Char} (h : KeepsCommas depth cs) :
    Leads depth (cs.foldl deepen depth) cs := by
  induction cs generalizing depth with
  | nil => exact .nil
  | cons c cs ih =>
      obtain ⟨hc, hcs⟩ := keepsCommas_cons_iff.mp h
      have hfirst : Leads depth (deepen depth c) [c] := fun rest => pieces_cons hc rest
      exact hfirst.append (ih hcs)

/-- The texts keep their commas, the first from `depth` on, and all but the last
    lead out of all parentheses and brackets. -/
inductive CommaSeparated : Nat → List (List Char) → Prop where
  | last {depth : Nat} {piece : List Char} (hpiece : KeepsCommas depth piece) :
      CommaSeparated depth [piece]
  | before {depth : Nat} {piece : List Char} {more : List (List Char)}
      (hpiece : KeepsCommas depth piece) (hclosed : piece.foldl deepen depth = 0)
      (hmore : CommaSeparated 0 more) : CommaSeparated depth (piece :: more)

namespace CommaSeparated

variable {depth : Nat} {texts : List (List Char)}

theorem ne_nil (h : CommaSeparated depth texts) : texts ≠ [] := by
  cases h with
  | last => exact List.cons_ne_nil _ _
  | before => exact List.cons_ne_nil _ _

/-- A character more in front of the first text. -/
theorem cons {c : Char} (hc : ¬ (c = ',' ∧ depth = 0))
    (h : CommaSeparated (deepen depth c) texts) :
    CommaSeparated depth (texts.modifyHead (c :: ·)) := by
  cases h with
  | last hpiece => exact .last (keepsCommas_cons_iff.mpr ⟨hc, hpiece⟩)
  | before hpiece hclosed hmore =>
      exact .before (keepsCommas_cons_iff.mpr ⟨hc, hpiece⟩) hclosed hmore

/-- **CUT AT THE COMMAS**: put together with commas, the texts come back as pieces. -/
theorem pieces_joinWith (h : CommaSeparated depth texts) :
    pieces depth (Text.joinWith [','] texts) = texts := by
  induction h with
  | last hpiece => exact pieces_of_no_comma hpiece
  | @before depth piece more hpiece hclosed hmore ih =>
      have hcomma : pieces 0 (',' :: Text.joinWith [','] more) = [] :: more := by
        rw [pieces, if_pos ⟨rfl, rfl⟩, ih]
      rw [Text.joinWith_cons _ hmore.ne_nil, List.append_assoc, List.singleton_append, hpiece.leads,
        hclosed, hcomma, List.modifyHead_cons, List.append_nil]

/-- Each of the texts keeps its commas, from where the list starts or from outside
    all brackets. -/
theorem keepsCommas_of_mem (h : CommaSeparated depth texts) {text : List Char}
    (ht : text ∈ texts) : KeepsCommas depth text ∨ KeepsCommas 0 text := by
  induction h with
  | last hkeeps =>
      rw [List.mem_singleton.mp ht]
      exact .inl hkeeps
  | before hkeeps _ _ ih =>
      rcases List.mem_cons.mp ht with rfl | ht
      · exact .inl hkeeps
      · exact .inr ((ih ht).elim id id)

end CommaSeparated

/-- Whatever brackets a text has, its pieces are separated. -/
theorem commaSeparated_pieces (depth : Nat) (cs : List Char) :
    CommaSeparated depth (pieces depth cs) := by
  induction cs generalizing depth with
  | nil => exact .last (keepsCommas_nil depth)
  | cons c cs ih =>
      by_cases hc : c = ',' ∧ depth = 0
      · -- Behind a comma that ends a piece the depth is zero, as it was in front of it.
        obtain ⟨rfl, rfl⟩ := hc
        rw [pieces, if_pos ⟨rfl, rfl⟩]
        exact .before (keepsCommas_nil 0) rfl (ih 0)
      · rw [pieces_cons hc]
        exact (ih (deepen depth c)).cons hc

/-! ## Outlines -/

/-- What decides where a list is cut. -/
def isDelimiter (c : Char) : Bool :=
  c == ',' || c == '(' || c == '[' || c == ')' || c == ']'

/-- The commas, parentheses and brackets of a text, in order. -/
def outline (cs : List Char) : List Char :=
  cs.filter isDelimiter

/-- Only parentheses and brackets change the depth. -/
theorem deepen_of_not_delimiter {c : Char} (h : isDelimiter c = false) (depth : Nat) :
    deepen depth c = depth := by
  simp only [isDelimiter, Bool.or_eq_false_iff, beq_eq_false_iff_ne] at h
  obtain ⟨⟨⟨⟨-, h₁⟩, h₂⟩, h₃⟩, h₄⟩ := h
  rw [deepen, if_neg (not_or.mpr ⟨h₁, h₂⟩), if_neg (not_or.mpr ⟨h₃, h₄⟩)]

theorem outline_cons_of_not_delimiter {c : Char} (h : isDelimiter c = false) (cs : List Char) :
    outline (c :: cs) = outline cs :=
  List.filter_cons_of_neg (by rw [h]; exact Bool.false_ne_true)

/-- The outline leads as deep as the text. -/
theorem foldl_deepen_outline (depth : Nat) (cs : List Char) :
    (outline cs).foldl deepen depth = cs.foldl deepen depth := by
  induction cs generalizing depth with
  | nil => rfl
  | cons c cs ih =>
      cases hc : isDelimiter c with
      | true =>
          rw [outline, List.filter_cons_of_pos hc]
          exact ih (deepen depth c)
      | false =>
          rw [outline_cons_of_not_delimiter hc, List.foldl_cons, deepen_of_not_delimiter hc]
          exact ih depth

/-- A text keeps its commas as its outline does. -/
theorem keepsCommas_outline {depth : Nat} {cs : List Char} :
    KeepsCommas depth (outline cs) ↔ KeepsCommas depth cs := by
  induction cs generalizing depth with
  | nil => exact Iff.rfl
  | cons c cs ih =>
      cases hc : isDelimiter c with
      | true =>
          rw [outline, List.filter_cons_of_pos hc, keepsCommas_cons_iff, keepsCommas_cons_iff]
          exact and_congr_right fun _ => ih
      | false =>
          have hcomma : ¬ (c = ',' ∧ depth = 0) := by
            rintro ⟨rfl, -⟩
            cases hc
          rw [outline_cons_of_not_delimiter hc, keepsCommas_cons_iff, deepen_of_not_delimiter hc,
            and_iff_right hcomma, ih]

/-- Texts with the same outline keep their commas alike. -/
theorem KeepsCommas.congr {depth : Nat} {cs ds : List Char} (h : KeepsCommas depth cs)
    (hsame : outline ds = outline cs) : KeepsCommas depth ds := by
  rw [← keepsCommas_outline, hsame]
  exact keepsCommas_outline.mpr h

/-- Texts with the same outlines are separated just as well. -/
theorem CommaSeparated.map {f : List Char → List Char} (hf : ∀ cs, outline (f cs) = outline cs)
    {depth : Nat} {texts : List (List Char)} (h : CommaSeparated depth texts) :
    CommaSeparated depth (texts.map f) := by
  induction h with
  | last hkeeps => exact .last (hkeeps.congr (hf _))
  | before hkeeps hclosed _ ih =>
      refine .before (hkeeps.congr (hf _)) ?_ ih
      rw [← foldl_deepen_outline, hf, foldl_deepen_outline]
      exact hclosed

/-! ## Cleaning -/

/-- No white space decides where a list is cut. -/
theorem isDelimiter_of_isBlank {c : Char} (h : Text.isBlank c = true) : isDelimiter c = false := by
  rw [Bool.eq_false_iff]
  intro hmark
  simp only [isDelimiter, Bool.or_eq_true, beq_iff_eq] at hmark
  rcases hmark with (((rfl | rfl) | rfl) | rfl) | rfl
  all_goals exact absurd h (by decide)

theorem outline_of_blank {cs : List Char} (h : ∀ c ∈ cs, Text.isBlank c = true) :
    outline cs = [] := by
  refine List.filter_eq_nil_iff.mpr fun c hc => ?_
  rw [isDelimiter_of_isBlank (h c hc)]
  exact Bool.false_ne_true

theorem outline_append (cs ds : List Char) : outline (cs ++ ds) = outline cs ++ outline ds :=
  List.filter_append cs ds

/-- Trimming leaves the outline as it is. -/
theorem outline_trim (cs : List Char) : outline (Text.trim cs) = outline cs := by
  obtain ⟨front, back, hcs, hfront, hback⟩ := Text.exists_trim cs
  conv_rhs => rw [hcs, outline_append, outline_append, outline_of_blank hfront,
    outline_of_blank hback, List.nil_append, List.append_nil]

/-- So does cleaning, as line breaks are white space. -/
theorem outline_cleanBranch (cs : List Char) : outline (cleanBranch cs) = outline cs := by
  rw [cleanBranch, outline_trim, outline, List.filter_filter]
  refine List.filter_congr fun c _ => ?_
  by_cases hline : c = '\n' ∨ c = '\r'
  · rcases hline with rfl | rfl
    · rfl
    · rfl
  · obtain ⟨hn, hr⟩ := not_or.mp hline
    rw [beq_false_of_ne hn, beq_false_of_ne hr]
    exact Bool.and_true _

theorem outline_space (cs : List Char) : outline (' ' :: cs) = outline cs :=
  outline_cons_of_not_delimiter (by decide) cs

/-- A space in front of a list does not count. -/
theorem branches_space (cs : List Char) : branches (' ' :: cs) = branches cs := by
  rw [branches, branches, pieces_cons_of_flat (by decide) (by decide)]
  cases hpieces : pieces 0 cs with
  | nil => exact absurd hpieces (pieces_ne_nil 0 cs)
  | cons piece rest => rw [List.map_cons, List.map_cons, cleanBranch_space]

/-- Put together with a comma and a space, texts that a comma alone keeps apart
    come back cleaned. -/
theorem branches_joinWith {texts : List (List Char)} (h : CommaSeparated 0 texts) :
    branches (Text.joinWith ", ".toList texts) = texts.map cleanBranch := by
  -- The space behind a comma goes to the text that follows, so all of them may
  -- begin with one.
  have hspaced : CommaSeparated 0 (texts.map (' ' :: ·)) := h.map outline_space
  calc branches (Text.joinWith ", ".toList texts)
      = branches (' ' :: Text.joinWith ([','] ++ [' ']) texts) := (branches_space _).symm
    _ = branches (Text.joinWith [','] (texts.map (' ' :: ·))) := by
        rw [Text.cons_joinWith _ _ h.ne_nil]
    _ = (texts.map (' ' :: ·)).map cleanBranch := by rw [branches, hspaced.pieces_joinWith]
    _ = texts.map cleanBranch := by
        rw [List.map_map]
        exact List.map_congr_left fun text _ => cleanBranch_space text

/-! ## Lists of branches -/

/-- A cleaned piece that keeps its commas is a branch. -/
theorem isBranch_cleanBranch {cs : List Char} (h : KeepsCommas 0 cs) :
    IsBranch (String.ofList (cleanBranch cs)) where
  commas := by
    rw [String.toList_ofList]
    exact h.congr (outline_cleanBranch cs)
  lines := by
    rw [String.toList_ofList]
    intro c hc
    obtain ⟨front, back, hcs, -, -⟩ :=
      Text.exists_trim (cs.filter fun c => !(c == '\n' || c == '\r'))
    have hmem : c ∈ cs.filter fun c => !(c == '\n' || c == '\r') := by
      rw [hcs]
      exact List.mem_append_left back (List.mem_append_right front hc)
    have hline := (List.mem_filter.mp hmem).2
    rw [Bool.not_eq_true', Bool.or_eq_false_iff] at hline
    exact ⟨ne_of_beq_false hline.1, ne_of_beq_false hline.2⟩
  trimmed := by
    rw [String.toList_ofList]
    exact Text.trimmed_trim _

/-- Every branch of a list is a branch by itself. -/
theorem isBranch_of_mem_split {selector branch : String} (h : branch ∈ split selector) :
    IsBranch branch := by
  obtain ⟨cleaned, hcleaned, rfl⟩ := List.mem_map.mp h
  obtain ⟨piece, hpiece, rfl⟩ := List.mem_map.mp hcleaned
  have hkeeps := (commaSeparated_pieces 0 selector.toList).keepsCommas_of_mem hpiece
  exact isBranch_cleanBranch (hkeeps.elim id id)

/-- Branches keep the commas apart that their pieces keep apart. -/
theorem commaSeparated_split (selector : String) :
    CommaSeparated 0 ((split selector).map String.toList) := by
  have hbranches : (split selector).map String.toList = branches selector.toList := by
    rw [split, List.map_map, String.toList_comp_ofList, List.map_id]
  rw [hbranches]
  exact (commaSeparated_pieces 0 selector.toList).map outline_cleanBranch

/-- **LISTS OF BRANCHES**: branches put together come back exactly where each is a
    branch by itself and all but the last close what they open. -/
theorem split_joinBranches_iff {parts : List String} :
    split (joinBranches parts) = parts
      ↔ CommaSeparated 0 (parts.map String.toList) ∧ ∀ part ∈ parts, IsBranch part := by
  constructor
  · intro h
    refine ⟨?_, fun part hpart => ?_⟩
    · rw [← h]
      exact commaSeparated_split _
    · rw [← h] at hpart
      exact isBranch_of_mem_split hpart
  · rintro ⟨hseparated, hparts⟩
    have hclean : (parts.map String.toList).map cleanBranch = parts.map String.toList := by
      rw [List.map_map]
      exact List.map_congr_left fun part hpart => (hparts part hpart).clean
    rw [split, joinBranches, String.toList_ofList, branches_joinWith hseparated, hclean,
      List.map_map, String.ofList_comp_toList, List.map_id]

/-- **PUT TOGETHER AGAIN**: a branch of a list is a list of its own, with that
    branch alone, and the branches of a list that is put together from them are
    the same. -/
theorem split_rejoined (selector : String) :
    (∀ branch ∈ split selector, split branch = [branch])
      ∧ split (joinBranches (split selector)) = split selector := by
  refine ⟨fun branch hbranch => split_of_isBranch (isBranch_of_mem_split hbranch), ?_⟩
  exact split_joinBranches_iff.mpr
    ⟨commaSeparated_split selector, fun branch hbranch => isBranch_of_mem_split hbranch⟩

/-- A parenthesis too many, an empty branch, a blank one with a line break, and a
    bracket that stays open. -/
def ragged : String :=
  " .tab:is(.a, .b)) ,,\n\t, .c\n[title, .d"

/-- The parenthesis too many closes nothing, and the bracket that stays open is the
    last branch, so the list comes back. -/
theorem ragged_rejoined :
    split ragged = [".tab:is(.a, .b))", "", "", ".c[title, .d"]
      ∧ split ".c[title, .d" = [".c[title, .d"]
      ∧ split (joinBranches (split ragged)) = split ragged := by
  have hsplit : split ragged = [".tab:is(.a, .b))", "", "", ".c[title, .d"] := by decide +kernel
  obtain ⟨halone, hagain⟩ := split_rejoined ragged
  refine ⟨hsplit, halone ".c[title, .d" ?_, hagain⟩
  rw [hsplit]
  decide

end Selector

end ThemeTokens
