import ThemeTokens.Proofs.Stylesheet.Printed

/-! # Plain stylesheets

    Letters, digits and a few marks make tokens that open nothing and close
    nothing, so a text of them stands alone wherever it is put.  A stylesheet
    of such texts, at any depth, is read back from what it is printed to
    (`Stylesheet.parse_print_of_isPlain`). -/

namespace ThemeTokens

/-! ## Plain names and texts -/

/-- A letter with letters, digits, dashes and underscores behind it. -/
def isPlainName (name : String) : Bool :=
  match name.toList with
  | [] => false
  | c :: cs => c.isAlpha && cs.all fun d => d.isAlphanum || d == '-' || d == '_'

/-- Letters, digits and the marks of plain texts. -/
def isPlainChar (c : Char) : Bool :=
  c.isAlphanum || c == ' ' || c == '.' || c == '#' || c == ',' || c == '%' || c == '-' || c == '_'

/-- Plain characters, without a space at either end. -/
def isPlainText (text : String) : Bool :=
  text.toList.all isPlainChar && text.toList.head? != some ' ' && text.toList.getLast? != some ' '

/-- Whether the name and value are plain. -/
def Declaration.isPlain (d : Declaration) : Bool :=
  isPlainName d.property && isPlainText d.value

/-- Whether the name, which is not that of an encoding, and the prelude are plain. -/
def AtHead.isPlain (head : AtHead) : Bool :=
  isPlainName head.name && !isCharset head.name && isPlainText head.prelude

mutual

/-- Whether all names and texts are plain, and every at-rule with a block has the
    block its name asks for. -/
def Node.isPlain : Node → Bool
  | .rule r =>
      r.selector != "" && isPlainText r.selector && r.declarations.all Declaration.isPlain
  | .atStatement head => head.isPlain
  | .atRules head nodes =>
      head.isPlain && !holdsDeclarations head.name && Node.allPlain nodes
  | .atDeclarations head ds =>
      head.isPlain && holdsDeclarations head.name && ds.all Declaration.isPlain

/-- Whether all nodes are plain. -/
def Node.allPlain : List Node → Bool
  | [] => true
  | n :: ns => n.isPlain && Node.allPlain ns

end

/-- Whether all nodes, at every depth, are plain. -/
def Stylesheet.isPlain (sheet : Stylesheet) : Bool :=
  Node.allPlain sheet.nodes

namespace Css

/-! ## Plain tokens -/

/-- Tokens that open nothing, close nothing and end nothing. -/
def Token.isFlat : Token → Bool
  | .ident _ => true
  | .hash _ => true
  | .idHash _ => true
  | .delim _ => true
  | .number _ => true
  | .percentage _ => true
  | .dimension _ _ => true
  | .whiteSpace _ => true
  | .comma => true
  | _ => false

/-- The token is flat, leaves the semicolon alone, and is white space only where
    it begins with a space. -/
def Flat (c : Char) (l : Lexed) : Prop :=
  l.token.isFlat = true ∧ (c ≠ ' ' → l.token.isBlank = false) ∧ l.rest ≠ []

/-- What is true of the plain characters among the first ones is true of all. -/
theorem isPlainChar.all {P : Char → Bool}
    (h : ∀ n < 128, isPlainChar (Char.ofNat n) = true → P (Char.ofNat n) = true) {c : Char}
    (hc : isPlainChar c = true) : P c = true := by
  have hlt : c.toNat < 128 := by
    simp only [isPlainChar, Char.isAlphanum, Char.isAlpha, Char.isUpper, Char.isLower, Char.isDigit,
      Bool.or_eq_true, Bool.and_eq_true, decide_eq_true_eq, beq_iff_eq, ge_iff_le,
      UInt32.le_iff_toNat_le] at hc
    change (((((((((65 ≤ c.toNat ∧ c.toNat ≤ 90) ∨ (97 ≤ c.toNat ∧ c.toNat ≤ 122))
      ∨ (48 ≤ c.toNat ∧ c.toNat ≤ 57)) ∨ c = ' ') ∨ c = '.') ∨ c = '#') ∨ c = ',') ∨ c = '%')
      ∨ c = '-') ∨ c = '_' at hc
    rcases hc with ((((((hc | rfl) | rfl) | rfl) | rfl) | rfl) | rfl) | rfl
    · omega
    all_goals decide
  rw [← Char.ofNat_toNat c] at hc ⊢
  exact h c.toNat hlt hc

section Plain

variable {u : List Char} (hu : ∀ c ∈ u, isPlainChar c = true)

include hu

/-- A name in a plain text ends in front of a character that goes on no name. -/
theorem name_of_plain :
    (name (u ++ [';'])).rest ≠ [] ∧ (name (u ++ [';'])).rest.head? ≠ some '(' := by
  induction u with
  | nil =>
      rw [List.nil_append, name_of_breaks (by decide)]
      exact ⟨List.cons_ne_nil _ _, fun h => absurd (Option.some.inj h) (by decide)⟩
  | cons c u ih =>
      obtain ⟨hc, hu⟩ := List.forall_mem_cons.mp hu
      by_cases hname : isNameChar c = true
      · rw [List.cons_append, name, if_pos hname]
        exact ih hu
      · have hbreaks := isPlainChar.all
          (P := fun c => isNameChar c || (breaksName c && c != '(')) (by decide) hc
        simp only [hname, Bool.false_or, Bool.and_eq_true, bne_iff_ne] at hbreaks
        rw [List.cons_append, name_of_breaks hbreaks.1]
        exact ⟨List.cons_ne_nil _ _, fun h => hbreaks.2 (Option.some.inj h)⟩

/-- A name in a plain text is an identifier, since no parenthesis follows it. -/
theorem flat_identLike (c : Char) : Flat c (identLike (u ++ [';'])) := by
  obtain ⟨hrest, hparen⟩ := name_of_plain hu
  rw [identLike_of_not_paren hparen]
  exact ⟨rfl, fun _ => rfl, hrest⟩

/-- A number in a plain text is flat with its unit. -/
theorem flat_numeric (c : Char) : Flat c (numeric (u ++ [';'])) := by
  have hrest : ∀ d ∈ (numeral u).2.2, isPlainChar d = true := by
    intro d hd
    refine hu d ?_
    rw [splits_numeral u]
    exact List.mem_append_right _ hd
  rw [numeric_eq, numeral_append (Ends.semicolon []).breaks u]
  generalize (numeral u).2.2 = rest at hrest
  dsimp only
  split
  · rename_i hpercent
    cases rest with
    | nil => cases hpercent
    | cons d rest => exact ⟨rfl, fun _ => rfl, by simp⟩
  · split
    · exact ⟨rfl, fun _ => rfl, (name_of_plain hrest).1⟩
    · exact ⟨rfl, fun _ => rfl, by simp⟩

theorem flat_hash : Flat '#' (lex '#' (u ++ [';'])) := by
  obtain ⟨hname, -⟩ := name_of_plain hu
  show Flat '#' (if startsName (u ++ [';']) then
      ⟨.idHash (String.ofList (name (u ++ [';'])).text), '#' :: (name (u ++ [';'])).raw,
        (name (u ++ [';'])).rest⟩
    else if ((u ++ [';']).head?.map fun d => d.isDigit || d == '-') = some true then
      ⟨.hash (String.ofList (name (u ++ [';'])).text), '#' :: (name (u ++ [';'])).raw,
        (name (u ++ [';'])).rest⟩
    else single (.delim '#') '#' (u ++ [';']))
  split
  · exact ⟨rfl, fun _ => rfl, hname⟩
  · split
    · exact ⟨rfl, fun _ => rfl, hname⟩
    · exact ⟨rfl, fun _ => rfl, by simp [single]⟩

/-- A dash in a plain text begins a number or a name, or stands for itself. -/
theorem flat_dash : Flat '-' (lex '-' (u ++ [';'])) := by
  have hplain : ∀ c ∈ '-' :: u, isPlainChar c = true := List.forall_mem_cons.mpr ⟨rfl, hu⟩
  have hclose : ¬ ['-', '>'] <+: u ++ [';'] := by
    rw [prefix_append_iff (Ends.semicolon []).breaks (by simp [breakers, enders])]
    intro hlead
    exact absurd (hu '>' (hlead.subset (by simp))) (by decide)
  rw [lex_dash, if_neg hclose]
  split
  · exact flat_numeric hplain '-'
  · split
    · exact flat_identLike hplain '-'
    · exact ⟨rfl, fun _ => rfl, by simp [single]⟩

theorem flat_dot : Flat '.' (lex '.' (u ++ [';'])) := by
  have hplain : ∀ c ∈ '.' :: u, isPlainChar c = true := List.forall_mem_cons.mpr ⟨rfl, hu⟩
  show Flat '.' (if ((u ++ [';']).head?.map Char.isDigit) = some true
    then numeric ('.' :: (u ++ [';'])) else single (.delim '.') '.' (u ++ [';']))
  split
  · exact flat_numeric hplain '.'
  · exact ⟨rfl, fun _ => rfl, by simp [single]⟩

/-- Each token of a plain text is flat. -/
theorem flat_lex {c : Char} (hc : isPlainChar c = true) : Flat c (lex c (u ++ [';'])) := by
  have hplain : ∀ d ∈ c :: u, isPlainChar d = true := List.forall_mem_cons.mpr ⟨hc, hu⟩
  by_cases hspace : isSpace c = true
  · have hblank := isPlainChar.all (P := fun c => !isSpace c || c == ' ') (by decide) hc
    simp only [hspace, Bool.not_true, Bool.false_or, beq_iff_eq] at hblank
    have hlex : lex c (u ++ [';'])
        = ⟨.whiteSpace (String.ofList (c :: (u ++ [';']).takeWhile isSpace)),
          c :: (u ++ [';']).takeWhile isSpace, (u ++ [';']).dropWhile isSpace⟩ := by
      unfold lex
      rw [if_pos hspace]
    rw [hlex]
    refine ⟨rfl, fun h => absurd hblank h, ?_⟩
    intro hnil
    have hsemi := List.dropWhile_eq_nil_iff.mp hnil ';' (by simp)
    cases hsemi
  rw [Bool.not_eq_true] at hspace
  by_cases hstart : isNameStart c = true
  · rw [lex_nameStart hspace hstart]
    exact flat_identLike hplain c
  rw [Bool.not_eq_true] at hstart
  by_cases hdigit : c.isDigit = true
  · rw [lex_digit hspace hstart hdigit]
    exact flat_numeric hplain c
  rw [Bool.not_eq_true] at hdigit
  have hmark := isPlainChar.all (P := fun c => isSpace c || isNameStart c || c.isDigit
    || c == '.' || c == '#' || c == ',' || c == '%' || c == '-') (by decide) hc
  simp only [hspace, hstart, hdigit, Bool.or_false, Bool.false_or, Bool.or_eq_true,
    beq_iff_eq] at hmark
  have hne : u ++ [';'] ≠ [] := by simp
  rcases hmark with (((rfl | rfl) | rfl) | rfl) | rfl
  · exact flat_dot hu
  · exact flat_hash hu
  · exact ⟨rfl, fun _ => rfl, hne⟩
  · exact ⟨rfl, fun _ => rfl, hne⟩
  · exact flat_dash hu

omit hu in
/-- **PLAIN TEXTS**: the tokens of a plain text are flat, and the semicolon behind
    it stays a semicolon. -/
theorem cut_plain {text : List Char} (h : ∀ c ∈ text, isPlainChar c = true) :
    ∃ ls, cut (text ++ [';']) = ls ++ [semicolon] ∧ (∀ l ∈ ls, l.token.isFlat = true)
      ∧ (text.head? ≠ some ' ' → ∀ l ∈ ls.head?, l.token.isBlank = false) := by
  induction hn : text.length using Nat.strongRecOn generalizing text with
  | ind n ih =>
      cases text with
      | nil =>
          refine ⟨[], ?_, nofun, fun _ => nofun⟩
          rw [List.nil_append, cut_semicolon, cut_nil]
          rfl
      | cons c u =>
          obtain ⟨hc, hu⟩ := List.forall_mem_cons.mp h
          obtain ⟨hflat, hblank, hrest⟩ := flat_lex hu hc
          have hsplits : c :: u ++ [';'] = _ := (splits_lex c (u ++ [';'])).1
          obtain ⟨x, hx, hraw⟩ := exists_eq_concat hsplits hrest
          have hshort : x.length < n := by
            have hpos := List.length_pos_iff.mpr (splits_lex c (u ++ [';'])).2
            rw [← hn, hraw, List.length_append]
            omega
          have hplain : ∀ d ∈ x, isPlainChar d = true := by
            intro d hd
            refine h d ?_
            rw [hraw]
            exact List.mem_append_right _ hd
          obtain ⟨ls, hcut, hls, -⟩ := ih _ hshort hplain rfl
          refine ⟨⟨(lex c (u ++ [';'])).token, (lex c (u ++ [';'])).raw, .none, .none⟩ :: ls, ?_,
            List.forall_mem_cons.mpr ⟨hflat, hls⟩, fun hhead l hl => ?_⟩
          · rw [List.cons_append, cut_cons, hx, hcut]
            rfl
          · rw [← Option.some.inj hl]
            exact hblank fun hspace => hhead (by rw [hspace]; rfl)

end Plain

/-- Flat tokens make components of their own. -/
theorem closed_flat {closer : Option Token} (hout : Outer closer) {ls : List Lexeme}
    (h : ∀ l ∈ ls, l.token.isFlat = true) :
    Closed closer (ls.map .token) ∧ Component.lexemesAll (ls.map .token) = ls := by
  induction ls with
  | nil => exact ⟨.nil, rfl⟩
  | cons l ls ih =>
      obtain ⟨hl, hls⟩ := List.forall_mem_cons.mp h
      obtain ⟨hclosed, hlexemes⟩ := ih hls
      have hopens : l.token.closer? = none := by
        cases htoken : l.token <;> rw [htoken] at hl <;> first | rfl | cases hl
      have hcurly : l.token ≠ .closeCurly := by
        intro htoken
        rw [htoken] at hl
        cases hl
      refine ⟨.token hopens (hout.ne hcurly) hclosed, ?_⟩
      rw [List.map_cons, Component.lexemesAll, hlexemes]
      rfl

/-- A plain text stands alone wherever it is put. -/
theorem stands_plain {closer : Option Token} (hout : Outer closer) {text : List Char}
    (h : ∀ c ∈ text, isPlainChar c = true) (hhead : text.head? ≠ some ' ')
    {shape : List Token → Prop}
    (hshape : ∀ heads : List Token, (∀ t ∈ heads, t.isFlat = true) →
      (∀ t ∈ heads.head?, t.isBlank = false) → shape heads) : Stands closer shape text := by
  obtain ⟨ls, hcut, hflat, hblank⟩ := cut_plain h
  obtain ⟨hclosed, hlexemes⟩ := closed_flat hout hflat
  refine ⟨ls.map .token, by rw [hcut, hlexemes], hclosed, ?_⟩
  rw [List.map_map]
  refine hshape _ ?_ ?_
  · intro t ht
    obtain ⟨l, hl, rfl⟩ := List.mem_map.mp ht
    exact hflat l hl
  · intro t ht
    rw [List.head?_map] at ht
    obtain ⟨l, hl, rfl⟩ := Option.map_eq_some_iff.mp ht
    exact hblank hhead l hl

end Css

open Css (IsName Stands Outer)

/-- A plain name is a name and needs no escapes. -/
theorem isName_of_isPlainName {name : String} (h : isPlainName name = true) :
    IsName name.toList := by
  unfold isPlainName at h
  split at h
  · cases h
  · rename_i c cs heq
    simp only [Bool.and_eq_true, List.all_eq_true, Bool.or_eq_true, beq_iff_eq] at h
    obtain ⟨hc, hcs⟩ := h
    have hstart : Css.isNameStart c = true := by simp [Css.isNameStart, hc]
    have hdash : c ≠ '-' := by
      rintro rfl
      cases hc
    have hslash : c ≠ '\\' := by
      rintro rfl
      cases hc
    rw [heq]
    refine ⟨by rw [Css.startsName_cons hdash hslash, hstart], List.forall_mem_cons.mpr ⟨?_, ?_⟩⟩
    · simp [Css.isNameChar, Char.isAlphanum, hc]
    · intro d hd
      rcases hcs d hd with (halnum | rfl) | rfl
      · simp [Css.isNameChar, halnum]
      · rfl
      · rfl

/-- What a plain text says of itself. -/
theorem isPlainText_iff {text : String} :
    isPlainText text = true ↔ (∀ c ∈ text.toList, isPlainChar c = true)
      ∧ text.toList.head? ≠ some ' ' ∧ text.toList.getLast? ≠ some ' ' := by
  simp only [isPlainText, Bool.and_eq_true, List.all_eq_true, bne_iff_ne, and_assoc]

theorem trimmed_of_isPlainText {text : String} (h : isPlainText text = true) :
    Text.Trimmed text.toList := by
  obtain ⟨hplain, hhead, hlast⟩ := isPlainText_iff.mp h
  have hblank : ∀ c ∈ text.toList, c ≠ ' ' → Text.isBlank c = false := by
    intro c hc hne
    have hall := Css.isPlainChar.all (P := fun c => !Text.isBlank c || c == ' ') (by decide)
      (hplain c hc)
    simpa [hne] using hall
  refine ⟨fun c hc => hblank c (List.mem_of_head? hc) ?_,
    fun c hc => hblank c (List.mem_of_getLast? hc) ?_⟩
  · rintro rfl
    exact hhead hc
  · rintro rfl
    exact hlast hc

/-- A plain text stands alone in every place a stylesheet has. -/
theorem stands_of_isPlainText {closer : Option Css.Token} (hout : Outer closer) {text : String}
    (h : isPlainText text = true) {shape : List Css.Token → Prop}
    (hshape : ∀ heads : List Css.Token, (∀ t ∈ heads, t.isFlat = true) →
      (∀ t ∈ heads.head?, t.isBlank = false) → shape heads) :
    Stands closer shape text.toList := by
  obtain ⟨hplain, hhead, -⟩ := isPlainText_iff.mp h
  exact Css.stands_plain hout hplain hhead hshape

/-- A plain declaration can be printed and read back. -/
theorem Declaration.printable_of_isPlain {d : Declaration} (h : d.isPlain = true) :
    d.Printable := by
  obtain ⟨hname, hvalue⟩ := (Bool.and_eq_true _ _).mp h
  refine ⟨isName_of_isPlainName hname, trimmed_of_isPlainText hvalue,
    stands_of_isPlainText (Or.inr rfl) hvalue fun heads hflat _ hmem => ?_⟩
  cases hflat _ hmem

/-- So can the head of a plain at-rule, which does not name an encoding. -/
theorem AtHead.printable_of_isPlain {closer : Option Css.Token} (hout : Outer closer)
    {head : AtHead} (h : head.isPlain = true) :
    head.Printable closer ∧ isCharset head.name = false := by
  simp only [AtHead.isPlain, Bool.and_eq_true, Bool.not_eq_true'] at h
  obtain ⟨⟨hname, hcharset⟩, hprelude⟩ := h
  refine ⟨⟨isName_of_isPlainName hname, trimmed_of_isPlainText hprelude,
    stands_of_isPlainText hout hprelude fun heads hflat _ => ⟨?_, ?_⟩⟩, hcharset⟩
  · intro hmem
    cases hflat _ hmem
  · intro hmem
    cases hflat _ hmem

/-- So can a plain rule. -/
theorem Rule.printable_of_isPlain {closer : Option Css.Token} (hout : Outer closer) {r : Rule}
    (hselector : isPlainText r.selector = true)
    (hdeclarations : ∀ d ∈ r.declarations, d.isPlain = true) : r.Printable closer := by
  refine ⟨trimmed_of_isPlainText hselector,
    stands_of_isPlainText hout hselector fun heads hflat hblank => ⟨?_, fun t ht => ?_⟩,
    fun d hd => Declaration.printable_of_isPlain (hdeclarations d hd)⟩
  · intro hmem
    cases hflat _ hmem
  · have hflat' := hflat t (List.mem_of_head? ht)
    have hblank' := hblank t ht
    refine ⟨?_, ?_⟩
    · cases t <;> first | exact hblank' | cases hflat'
    · rintro name rfl
      cases hflat'

mutual

/-- So can a plain node with all nodes inside. -/
theorem Node.printable_of_isPlain {closer : Option Css.Token} (hout : Outer closer) {n : Node}
    (h : n.isPlain = true) :
    n.Printable closer ∧ ∀ name ∈ n.atName?, isCharset name = false := by
  cases n with
  | rule r =>
      simp only [Node.isPlain, Bool.and_eq_true, List.all_eq_true] at h
      exact ⟨Rule.printable_of_isPlain hout h.1.2 h.2, nofun⟩
  | atStatement head =>
      obtain ⟨hhead, hcharset⟩ := AtHead.printable_of_isPlain hout h
      refine ⟨hhead, fun name hname => ?_⟩
      rw [← Option.some.inj hname]
      exact hcharset
  | atRules head nodes =>
      simp only [Node.isPlain, Bool.and_eq_true, Bool.not_eq_true'] at h
      obtain ⟨⟨hplain, hholds⟩, hnodes⟩ := h
      obtain ⟨hhead, hcharset⟩ := AtHead.printable_of_isPlain hout hplain
      obtain ⟨hprintable, hfree⟩ := Node.allPrintable_of_allPlain (Or.inr rfl) hnodes
      refine ⟨⟨hhead, hholds, hprintable, hfree⟩, fun name hname => ?_⟩
      rw [← Option.some.inj hname]
      exact hcharset
  | atDeclarations head ds =>
      simp only [Node.isPlain, Bool.and_eq_true, List.all_eq_true] at h
      obtain ⟨⟨hplain, hholds⟩, hds⟩ := h
      obtain ⟨hhead, hcharset⟩ := AtHead.printable_of_isPlain hout hplain
      refine ⟨⟨hhead, hholds, fun d hd => Declaration.printable_of_isPlain (hds d hd)⟩,
        fun name hname => ?_⟩
      rw [← Option.some.inj hname]
      exact hcharset

theorem Node.allPrintable_of_allPlain {closer : Option Css.Token} (hout : Outer closer)
    {ns : List Node} (h : Node.allPlain ns = true) :
    Node.AllPrintable closer ns ∧ CharsetFree ns := by
  cases ns with
  | nil => exact ⟨trivial, nofun⟩
  | cons n ns =>
      simp only [Node.allPlain, Bool.and_eq_true] at h
      obtain ⟨hn, hcharset⟩ := Node.printable_of_isPlain hout h.1
      obtain ⟨hns, -⟩ := Node.allPrintable_of_allPlain hout h.2
      refine ⟨⟨hn, hns⟩, fun m hm => ?_⟩
      rw [← Option.some.inj hm]
      exact hcharset

end

/-- **ROUND TRIP**: what a plain stylesheet is printed to is read back to the same
    stylesheet, up to places. -/
theorem Stylesheet.parse_print_of_isPlain {sheet : Stylesheet} (h : sheet.isPlain = true) :
    ∃ read, Stylesheet.parse sheet.print = .ok read ∧ read.unplaced = sheet.unplaced := by
  obtain ⟨hprintable, hcharset⟩ := Node.allPrintable_of_allPlain (Or.inl rfl) h
  exact Stylesheet.parse_print hprintable hcharset

/-- At-rules of every kind, empty texts and blocks, and rules two levels down. -/
def terrace : Stylesheet :=
  ⟨[.atStatement ⟨"import", "tiles", .none⟩,
    .atRules ⟨"media", "screen", .none⟩
      [.rule ⟨".pot li, #a-1", [⟨"gap", "1.5em 20%", .none⟩, ⟨"x", "", .none⟩], .none⟩,
        .atRules ⟨"layer", "", .none⟩ [.rule ⟨"-- 0.", [], .none⟩],
        .atRules ⟨"layer", "b", .none⟩ []],
    .atDeclarations ⟨"Font-Face", "", .none⟩ [⟨"src", "local", .none⟩]]⟩

theorem terrace_parse_print :
    terrace.isPlain = true
      ∧ ∃ read, Stylesheet.parse terrace.print = .ok read ∧ read.unplaced = terrace.unplaced :=
  ⟨by decide +kernel, Stylesheet.parse_print_of_isPlain (by decide +kernel)⟩

end ThemeTokens
