import ThemeTokens.Proofs.Css.Whole
import ThemeTokens.Proofs.Outcome
import ThemeTokens.Proofs.Stylesheet.Printed

/-! # Stylesheets read, printed and read again

    What is read is printed with its texts as they were written and its names
    with their escapes resolved.  If all names can do without escapes and all
    texts are whole, it is read again from what it is printed to
    (`Stylesheet.parse_print_parse`).  The proof goes along with the reading:
    each text is cut out in front of a stop, so as a whole text it stands alone. -/

namespace ThemeTokens

open Css (Component Lexeme Token Closed IsCut IsName Outer Sound Stands isSpace isStop isWhole
  white)
open Css.Component (lexemesAll rawAll)

/-! ## Whole stylesheets -/

/-- Whether the property needs no escapes and the value is whole. -/
def Declaration.isWhole (d : Declaration) : Bool :=
  decide (IsName d.property.toList) && Css.isWhole d.value.toList

/-- Whether the selector and all values are whole. -/
def Rule.isWhole (r : Rule) : Bool :=
  Css.isWhole r.selector.toList && r.declarations.all Declaration.isWhole

/-- Whether the name needs no escapes and the prelude is whole. -/
def AtHead.isWhole (head : AtHead) : Bool :=
  decide (IsName head.name.toList) && Css.isWhole head.prelude.toList

/-- Whether the nodes begin with the at-rule that names an encoding. -/
def beginsWithCharset (nodes : List Node) : Bool :=
  (nodes.head?.bind Node.atName?).any isCharset

mutual

/-- Whether no name needs escapes, all texts are whole, and no rules in a block
    begin with one that names an encoding. -/
def Node.isWhole : Node → Bool
  | .rule r => r.isWhole
  | .atStatement head => head.isWhole
  | .atRules head nodes => head.isWhole && Node.allWhole nodes && !beginsWithCharset nodes
  | .atDeclarations head ds => head.isWhole && ds.all Declaration.isWhole

/-- Whether all nodes are whole. -/
def Node.allWhole : List Node → Bool
  | [] => true
  | n :: ns => n.isWhole && Node.allWhole ns

end

/-- Whether all nodes, at every depth, are whole, and no list of them begins with
    an at-rule that names an encoding. -/
def Stylesheet.isWhole (sheet : Stylesheet) : Bool :=
  Node.allWhole sheet.nodes && !beginsWithCharset sheet.nodes

/-! ## Components that were cut -/

/-- The components are cut from a text, in front of a stop if of anything, and all
    blanks in them are white space. -/
def Readable (closer : Option Token) (cs : List Component) : Prop :=
  ∃ ls, Sound closer cs ∧ IsCut (lexemesAll cs ++ ls)
    ∧ (∀ c ∈ (ls.flatMap Lexeme.raw).head?, isStop c = true)
    ∧ ∀ c ∈ rawAll cs, Text.isBlank c = true → isSpace c = true

namespace Readable

variable {closer : Option Token} {c : Component} {cs ds : List Component}

/-- The last components of a text can be read as well. -/
theorem right (h : Readable closer (cs ++ ds)) : Readable closer ds := by
  obtain ⟨ls, hsound, hcut, hstop, hblank⟩ := h
  rw [Component.lexemesAll_append, List.append_assoc] at hcut
  rw [Component.rawAll_append] at hblank
  exact ⟨ls, hsound.right, hcut.right, hstop,
    fun c hc => hblank c (List.mem_append_right _ hc)⟩

theorem tail (h : Readable closer (c :: cs)) : Readable closer cs := by
  have hparts : Readable closer ([c] ++ cs) := h
  exact hparts.right

/-- A component that begins with a stop is written with it in front. -/
theorem head?_raw {ls : List Lexeme} (h : IsCut (c.lexemes ++ ls)) {d : Char}
    (hd : c.head.stop? = some d) : c.raw.head? = some d := by
  rw [Component.raw_eq]
  cases c with
  | token l =>
      have hraw := h.raw_of_mem (l := l) (List.mem_cons_self ..) hd
      rw [Component.lexemes, List.flatMap_cons, hraw]
      rfl
  | block opening content closing =>
      have hraw := h.raw_of_mem (l := opening) (List.mem_cons_self ..) hd
      rw [Component.lexemes, List.flatMap_cons, hraw]
      rfl

/-- What comes before a semicolon, or a block in curly brackets. -/
theorem left (h : Readable closer (cs ++ c :: ds)) (hc : c.head.stop?.isSome = true) :
    Readable closer cs := by
  obtain ⟨ls, hsound, hcut, hstop, hblank⟩ := h
  obtain ⟨d, hd⟩ := Option.isSome_iff_exists.mp hc
  rw [Component.lexemesAll_append, List.append_assoc] at hcut
  rw [Component.rawAll_append] at hblank
  refine ⟨lexemesAll (c :: ds) ++ ls, hsound.left_of_append, hcut, ?_,
    fun e he => hblank e (List.mem_append_left _ he)⟩
  have hbehind := hcut.right
  rw [lexemesAll, List.append_assoc] at hbehind
  have hhead := head?_raw hbehind hd
  intro e he
  rw [lexemesAll, List.append_assoc, List.flatMap_append, ← Component.raw_eq, List.head?_append,
    hhead] at he
  rw [← Option.some.inj he]
  exact Css.isStop_of_stop? hd

/-- No block begins with a semicolon. -/
theorem isSemicolon_of_head (h : Readable closer (c :: cs)) (hc : c.head = .semicolon) :
    c.isSemicolon = true := by
  obtain ⟨ls, hsound, -⟩ := h
  have hnone : c.head.closer? = none := congrArg Token.closer? hc
  cases hsound with
  | token => exact beq_iff_eq.mpr hc
  | block hclosing => cases hclosing.symm.trans hnone
  | left hopens => cases hopens.symm.trans (congrArg Option.isSome hnone)

/-- A curly bracket that opens a block begins one. -/
theorem isCurly_of_head (h : Readable closer (c :: cs)) (hc : c.head = .openCurly) :
    c.isCurly = true := by
  obtain ⟨ls, hsound, -⟩ := h
  have hsome : c.head.closer? = some .closeCurly := congrArg Token.closer? hc
  cases hsound with
  | token hopens => cases hopens.symm.trans hsome
  | block => exact beq_iff_eq.mpr hc
  | left => exact beq_iff_eq.mpr hc

/-- What is in a block in curly brackets. -/
theorem inside (h : Readable closer (c :: cs)) (hc : c.isCurly = true) :
    Readable (some .closeCurly) (contentOf c) := by
  obtain ⟨ls, hsound, hcut, hstop, hblank⟩ := h
  rw [lexemesAll, List.append_assoc] at hcut
  cases hsound with
  | token => cases hc
  | @block _ opening closing content _ hclosing hcontent _ =>
      have hopening : opening.token = .openCurly := beq_iff_eq.mp hc
      have hcloser : closing.token = .closeCurly := by
        rw [hopening] at hclosing
        exact (Option.some.inj hclosing).symm
      rw [Component.lexemes, Option.toList_some, List.cons_append, List.append_assoc] at hcut
      have hraw := hcut.tail.right.raw_of_mem (List.mem_cons_self ..)
        (show closing.token.stop? = some '\x7d' by rw [hcloser]; rfl)
      refine ⟨closing :: (lexemesAll cs ++ ls), hcloser ▸ hcontent.sound, hcut.tail, ?_, ?_⟩
      · intro e he
        rw [List.flatMap_cons, hraw] at he
        rw [← Option.some.inj he]
        rfl
      · exact fun e he => hblank e
          (List.mem_append_left _ (List.mem_append_left _ (List.mem_append_right _ he)))
  | @left _ opening content _ hcontent =>
      -- Nothing comes behind a block that is left open.
      have hopening : opening.token = .openCurly := beq_iff_eq.mp hc
      rw [hopening] at hcontent
      rw [Component.lexemes, Option.toList_none, List.append_nil, List.cons_append] at hcut
      exact ⟨ls, hcontent, hcut.tail, hstop, fun e he => hblank e
        (List.mem_append_left _ (List.mem_append_left _ (List.mem_append_right _ he)))⟩

/-- **WHOLE TEXTS**: a whole text that was kept stands alone, and what is true of the
    tokens it was kept from is true of its own. -/
theorem stands (h : Readable closer cs) (hout : Outer closer)
    (hwhole : isWhole (keptText (rawAll cs)).toList = true) {shape : List Token → Prop}
    (hnil : shape [])
    (hshape : ∀ a b heads, cs.map Component.head
      = (white a).map Component.head ++ heads ++ (white b).map Component.head → shape heads) :
    Stands closer shape (keptText (rawAll cs)).toList := by
  rw [keptText, String.toList_ofList] at hwhole ⊢
  by_cases hempty : Text.trim (rawAll cs) = []
  · rw [hempty]
    refine ⟨[], ?_, .nil, hnil⟩
    rw [List.nil_append, Css.cut_semicolon, Css.cut_nil]
    rfl
  obtain ⟨ls, hsound, hcut, hstop, hblank⟩ := h
  obtain ⟨a, b, hraw, ha, hb⟩ := Text.exists_trim (rawAll cs)
  have hspace : ∀ c ∈ a ++ b, Text.isBlank c = true → isSpace c = true := by
    intro c hc
    refine hblank c ?_
    rw [hraw]
    rcases List.mem_append.mp hc with hc | hc
    · exact List.mem_append_left _ (List.mem_append_left _ hc)
    · exact List.mem_append_right _ hc
  obtain ⟨vs, hvs, hclosed, b', hheads⟩ := Css.stands_between hsound hout hcut hstop hraw
    (fun c hc => hspace c (List.mem_append_left _ hc) (ha c hc))
    (fun c hc => hspace c (List.mem_append_right _ hc) (hb c hc))
    (head?_trimmed (Text.trimmed_trim _)) (getLast?_trimmed (Text.trimmed_trim _)) hempty hwhole
  exact ⟨vs, hvs, hclosed, hshape a b' _ hheads⟩

end Readable

/-! ## Declarations -/

/-- No encoding is named first exactly if the first node does not name one. -/
theorem charsetFree_iff {nodes : List Node} :
    CharsetFree nodes ↔ (!beginsWithCharset nodes) = true := by
  rw [CharsetFree, beginsWithCharset]
  cases nodes with
  | nil => simp
  | cons n nodes =>
      cases hname : n.atName? with
      | none => simp [hname]
      | some name => simp [hname]

/-- A declaration is whole if its name needs no escapes and its value is whole. -/
theorem Declaration.isWhole_iff {d : Declaration} :
    d.isWhole = true ↔ IsName d.property.toList ∧ Css.isWhole d.value.toList = true := by
  rw [Declaration.isWhole, Bool.and_eq_true, decide_eq_true_iff]

/-- The components of the value so far. -/
def OpenDeclaration.Holds : OpenDeclaration → List Component → Prop
  | .valued _ _ value, cs => value = rawAll cs ∧ Token.semicolon ∉ cs.map Component.head
  | _, _ => True

/-- A declaration that was read up to a semicolon or the end is read as it is
    printed. -/
theorem Declaration.printable_of_isWhole {cs : List Component}
    (h : Readable (some .closeCurly) cs) (hsemicolon : Token.semicolon ∉ cs.map Component.head)
    {property : String} {behind : Location}
    (hwhole : Declaration.isWhole ⟨property, keptText (rawAll cs), behind⟩ = true) :
    Declaration.Printable ⟨property, keptText (rawAll cs), behind⟩ := by
  obtain ⟨hname, hvalue⟩ := Declaration.isWhole_iff.mp hwhole
  refine ⟨hname, trimmed_keptText _,
    h.stands (Or.inr rfl) hvalue nofun fun a b heads hheads hmem => hsemicolon ?_⟩
  rw [hheads]
  exact List.mem_append_left _ (List.mem_append_right _ hmem)

/-- Whole declarations that were read are read as they are printed. -/
theorem declarationsOf_printable (stop : Location) (state : OpenDeclaration)
    (before cs : List Component) (h : Readable (some .closeCurly) (before ++ cs))
    (hstate : state.Holds before) {ds : List Declaration}
    (hds : declarationsOf stop state cs = .ok ds) (hwhole : ∀ d ∈ ds, d.isWhole = true) :
    ∀ d ∈ ds, d.Printable := by
  fun_induction declarationsOf stop state cs generalizing before ds with
  | case1 =>
      cases hds
      exact List.forall_mem_nil _
  | case2 => cases hds
  | case3 property behind value =>
      cases hds
      obtain ⟨rfl, hsemicolon⟩ := hstate
      rw [List.append_nil] at h
      exact List.forall_mem_singleton.mpr (Declaration.printable_of_isWhole h hsemicolon
        (hwhole _ (List.mem_singleton_self _)))
  | case4 => cases hds
  | case5 cs l name _ ih => exact ih [] h.right.tail trivial hds hwhole
  | case6 => cases hds
  | case7 cs l _ _ _ ih => exact ih [] h.right.tail trivial hds hwhole
  | case8 => cases hds
  | case9 => cases hds
  | case10 property behind cs l _ ih =>
      exact ih [] h.right.tail ⟨rfl, List.not_mem_nil⟩ hds hwhole
  | case11 => cases hds
  | case12 property behind cs l _ _ _ ih => exact ih [] h.right.tail trivial hds hwhole
  | case13 => cases hds
  | case14 property behind value c cs hc ih =>
      obtain ⟨rest, hrest, rfl⟩ := Outcome.bind_cons_eq_ok.mp hds
      obtain ⟨rfl, hsemicolon⟩ := hstate
      obtain ⟨hfirst, hwhole⟩ := List.forall_mem_cons.mp hwhole
      refine List.forall_mem_cons.mpr ⟨?_, ih [] h.right.tail trivial hrest hwhole⟩
      exact Declaration.printable_of_isWhole (h.left (by rw [head_of_isSemicolon hc]; rfl))
        hsemicolon hfirst
  | case15 property behind value c cs hc ih =>
      obtain ⟨rfl, hsemicolon⟩ := hstate
      refine ih (before ++ [c]) (by rwa [List.append_assoc]) ⟨?_, ?_⟩ hds hwhole
      · exact (Component.rawAll_concat before c).symm
      · rw [List.map_append, List.mem_append, not_or]
        refine ⟨hsemicolon, fun hmem => hc (h.right.isSemicolon_of_head ?_)⟩
        exact (List.mem_singleton.mp hmem).symm

/-! ## Nodes -/

section Nodes

variable {closer : Option Token} {c : Component} {cs : List Component} {stop start : Location}
  {name : String}

/-- White space around a selector is not what makes it one. -/
theorem IsSelector.of_around {a b : List Char} {heads all : List Token} (h : IsSelector all)
    (hall : all = (white a).map Component.head ++ heads ++ (white b).map Component.head) :
    IsSelector heads := by
  obtain ⟨hcurly, hfirst⟩ := h
  subst hall
  refine ⟨fun hmem => hcurly (List.mem_append_left _ (List.mem_append_right _ hmem)),
    fun t ht => hfirst t ?_⟩
  by_cases hempty : a = []
  · rw [List.head?_append, List.head?_append, ht, hempty]
    rfl
  · -- A selector does not begin with white space.
    obtain ⟨hblank, -⟩ := hfirst (.whiteSpace (String.ofList a))
      (by simp [white, hempty, Component.head])
    cases hblank

/-- What goes on a selector opens no block in curly brackets. -/
theorem IsSelector.append {heads others : List Token} (h : IsSelector heads) (hne : heads ≠ [])
    (hothers : Token.openCurly ∉ others) : IsSelector (heads ++ others) := by
  obtain ⟨hcurly, hfirst⟩ := h
  refine ⟨fun hmem => (List.mem_append.mp hmem).elim hcurly hothers, ?_⟩
  cases heads with
  | nil => exact absurd rfl hne
  | cons t heads => exact hfirst

theorem IsPrelude.of_around {a b : List Char} {heads all : List Token} (h : IsPrelude all)
    (hall : all = (white a).map Component.head ++ heads ++ (white b).map Component.head) :
    IsPrelude heads := by
  obtain ⟨hsemicolon, hcurly⟩ := h
  subst hall
  exact ⟨fun hmem => hsemicolon (List.mem_append_left _ (List.mem_append_right _ hmem)),
    fun hmem => hcurly (List.mem_append_left _ (List.mem_append_right _ hmem))⟩

/-- A rule is whole if its selector and its declarations are. -/
theorem Rule.isWhole_iff {r : Rule} :
    r.isWhole = true
      ↔ Css.isWhole r.selector.toList = true ∧ ∀ d ∈ r.declarations, d.isWhole = true := by
  rw [Rule.isWhole, Bool.and_eq_true, List.all_eq_true]

theorem Node.allWhole_cons {n : Node} {ns : List Node} :
    Node.allWhole (n :: ns) = true ↔ n.isWhole = true ∧ Node.allWhole ns = true := by
  rw [Node.allWhole, Bool.and_eq_true]

/-- The head of an at-rule is whole if its name needs no escapes and its prelude is
    whole. -/
theorem AtHead.isWhole_iff {head : AtHead} :
    head.isWhole = true ↔ IsName head.name.toList ∧ Css.isWhole head.prelude.toList = true := by
  rw [AtHead.isWhole, Bool.and_eq_true, decide_eq_true_iff]

theorem declarationsIn_printable (h : Readable closer (c :: cs)) (hc : c.isCurly = true)
    {ds : List Declaration} (hds : declarationsIn stop c = .ok ds)
    (hwhole : ∀ d ∈ ds, d.isWhole = true) : ∀ d ∈ ds, d.Printable :=
  declarationsOf_printable _ .between [] _ (h.inside hc) trivial hds hwhole

/-- A rule that was read up to and with its block is read as it is printed. -/
theorem Rule.printable_of_isWhole (hout : Outer closer) (before : List Component)
    (h : Readable closer (before ++ c :: cs)) (hc : c.isCurly = true)
    (hselector : IsSelector (before.map Component.head)) {ds : List Declaration}
    (hds : declarationsIn stop c = .ok ds)
    (hwhole : Rule.isWhole ⟨keptText (rawAll before), ds, start⟩ = true) :
    Rule.Printable closer ⟨keptText (rawAll before), ds, start⟩ := by
  obtain ⟨htext, hdeclarations⟩ := Rule.isWhole_iff.mp hwhole
  have hbefore : Readable closer before := h.left (by rw [head_of_isCurly hc]; rfl)
  exact ⟨trimmed_keptText _,
    hbefore.stands hout htext ⟨nofun, nofun⟩ fun a b heads hheads => hselector.of_around hheads,
    declarationsIn_printable h.right hc hds hdeclarations⟩

/-- The head of an at-rule that was read up to its block, a semicolon or the end is
    read as it is printed. -/
theorem AtHead.printable_of_isWhole (hout : Outer closer) (h : Readable closer cs)
    (hprelude : IsPrelude (cs.map Component.head))
    (hwhole : AtHead.isWhole ⟨name, keptText (rawAll cs), start⟩ = true) :
    AtHead.Printable closer ⟨name, keptText (rawAll cs), start⟩ := by
  obtain ⟨hname, hwhole⟩ := AtHead.isWhole_iff.mp hwhole
  exact ⟨hname, trimmed_keptText _, h.stands hout hwhole ⟨nofun, nofun⟩
    fun a b heads hheads => hprelude.of_around hheads⟩

/-- The components of the selector or prelude so far. -/
def OpenRule.Holds : OpenRule → List Component → Prop
  | .atRule _ _ text, cs => text = rawAll cs ∧ IsPrelude (cs.map Component.head)
  | .qualified _ text, cs => text = rawAll cs ∧ cs ≠ [] ∧ IsSelector (cs.map Component.head)
  | _, _ => True

/-- What a component goes on holds the components up to and with it, if any. -/
theorem OpenRule.Goes.holds {state next : OpenRule} (h : state.Goes c next)
    {before : List Component} (hread : Readable closer (before ++ c :: cs))
    (hstate : state.Holds before) :
    ∃ reading, Readable closer (reading ++ cs) ∧ next.Holds reading := by
  have hwith : Readable closer ((before ++ [c]) ++ cs) := by rwa [List.append_assoc]
  cases h with
  | separator => exact ⟨[], hread.right.tail, trivial⟩
  | charset => exact ⟨[], hread.right.tail, trivial⟩
  | dropped => exact ⟨[], hread.right.tail, trivial⟩
  | charsetEnd => exact ⟨[], hread.right.tail, trivial⟩
  | atKeyword => exact ⟨[], hread.right.tail, rfl, nofun, nofun⟩
  | qualified hsep hcurly hat =>
      refine ⟨[c], hread.right, (List.append_nil _).symm, List.cons_ne_nil _ _, ?_, ?_⟩
      · exact fun hmem => hcurly (hread.right.isCurly_of_head (List.mem_singleton.mp hmem).symm)
      · intro t ht
        rw [← Option.some.inj ht]
        exact ⟨by simpa using hsep, hat⟩
  | prelude hsemicolon hcurly =>
      obtain ⟨rfl, hprelude⟩ := hstate
      refine ⟨before ++ [c], hwith, (Component.rawAll_concat before c).symm, ?_⟩
      rw [List.map_append]
      refine hprelude.append ⟨fun hmem => ?_, fun hmem => ?_⟩
      · exact hsemicolon (hread.right.isSemicolon_of_head (List.mem_singleton.mp hmem).symm)
      · exact hcurly (hread.right.isCurly_of_head (List.mem_singleton.mp hmem).symm)
  | selector hcurly =>
      obtain ⟨rfl, hne, hselector⟩ := hstate
      refine ⟨before ++ [c], hwith, (Component.rawAll_concat before c).symm, by simp, ?_⟩
      rw [List.map_append]
      refine hselector.append (by simpa using hne) fun hmem => ?_
      exact hcurly (hread.right.isCurly_of_head (List.mem_singleton.mp hmem).symm)

/-- A whole node that a component completes is read as it is printed, if that is so
    of the nodes in it. -/
theorem OpenRule.Completes.printable (hout : Outer closer) {state : OpenRule} {n : Node}
    (h : state.Completes stop c n) {before : List Component}
    (hread : Readable closer (before ++ c :: cs)) (hstate : state.Holds before)
    (hinner : ∀ ns, c.isCurly = true → nodesIn stop c = .ok ns → Node.allWhole ns = true →
      Node.AllPrintable (some .closeCurly) ns)
    (hwhole : n.isWhole = true) : n.Printable closer := by
  cases h with
  | block hcurly hds =>
      exact Rule.printable_of_isWhole hout [] hread.right hcurly ⟨nofun, nofun⟩ hds hwhole
  | statement hsemicolon =>
      obtain ⟨rfl, hprelude⟩ := hstate
      exact AtHead.printable_of_isWhole hout
        (hread.left (by rw [head_of_isSemicolon hsemicolon]; rfl)) hprelude hwhole
  | atDeclarations hcurly hholds hds =>
      obtain ⟨rfl, hprelude⟩ := hstate
      obtain ⟨hhead, hdeclarations⟩ := (Bool.and_eq_true _ _).mp hwhole
      exact ⟨AtHead.printable_of_isWhole hout (hread.left (by rw [head_of_isCurly hcurly]; rfl))
        hprelude hhead, hholds,
        declarationsIn_printable hread.right hcurly hds (List.all_eq_true.mp hdeclarations)⟩
  | atRules hcurly hholds hnodes =>
      obtain ⟨rfl, hprelude⟩ := hstate
      obtain ⟨hwhole, hcharset⟩ := (Bool.and_eq_true _ _).mp hwhole
      obtain ⟨hhead, hall⟩ := (Bool.and_eq_true _ _).mp hwhole
      exact ⟨AtHead.printable_of_isWhole hout (hread.left (by rw [head_of_isCurly hcurly]; rfl))
        hprelude hhead, by simpa using hholds, hinner _ hcurly hnodes hall,
        charsetFree_iff.mpr hcharset⟩
  | rule hcurly hds =>
      obtain ⟨rfl, -, hselector⟩ := hstate
      exact Rule.printable_of_isWhole hout before hread hcurly hselector hds hwhole

mutual

/-- Whole nodes read from a block can be printed and read back. -/
theorem nodesIn_printable (stop : Location) (c : Component) {closer : Option Token}
    {cs : List Component} (h : Readable closer (c :: cs)) {ns : List Node}
    (hc : c.isCurly = true) (hns : nodesIn stop c = .ok ns) (hwhole : Node.allWhole ns = true) :
    Node.AllPrintable (some .closeCurly) ns := by
  cases c with
  | token l => cases hc
  | block opening content closing =>
      exact nodesOf_printable stop _ (.between true) [] content (Or.inr rfl) (h.inside hc)
        trivial hns hwhole

/-- **NODES**: whole nodes that were read are read as they are printed.  The induction
    goes along with the reading; `before` are the components of what is open. -/
theorem nodesOf_printable (stop here : Location) (state : OpenRule) (before cs : List Component)
    {closer : Option Token} (hout : Outer closer)
    (h : Readable closer (before ++ cs)) (hstate : state.Holds before)
    {ns : List Node} (hns : nodesOf stop here state cs = .ok ns)
    (hwhole : Node.allWhole ns = true) : Node.AllPrintable closer ns := by
  cases cs with
  | nil =>
      cases state with
      | between first =>
          cases hns
          trivial
      | charset =>
          cases hns
          trivial
      | atRule name start text =>
          cases hns
          obtain ⟨rfl, hprelude⟩ := hstate
          rw [List.append_nil] at h
          obtain ⟨hhead, -⟩ := Node.allWhole_cons.mp hwhole
          exact ⟨AtHead.printable_of_isWhole hout h hprelude hhead, trivial⟩
      | qualified start text => cases hns
  | cons c cs =>
      -- A node is completed in front of a stop, so what was open for it is cut out whole.
      rcases nodesOf_cons_eq_ok hns with ⟨next, hgoes, hns⟩ | ⟨n, rest, hcompletes, hrest, rfl⟩
      · obtain ⟨reading, hread, hnext⟩ := hgoes.holds h hstate
        exact nodesOf_printable stop here next reading cs hout hread hnext hns hwhole
      · obtain ⟨hn, hwhole⟩ := Node.allWhole_cons.mp hwhole
        have hinner : ∀ ns, c.isCurly = true → nodesIn stop c = .ok ns →
            Node.allWhole ns = true → Node.AllPrintable (some .closeCurly) ns :=
          fun _ => nodesIn_printable stop c h.right
        exact ⟨hcompletes.printable hout h hstate hinner hn,
          nodesOf_printable stop here (.between false) [] cs hout h.right.tail trivial hrest hwhole⟩

end

end Nodes

/-- **ROUND TRIP**: whatever text a stylesheet was read from, if it is whole, and no
    blanks are in the text but white space, it is read again from what it is
    printed to, up to places. -/
theorem Stylesheet.parse_print_parse {css : String} {sheet : Stylesheet}
    (h : Stylesheet.parse css = .ok sheet)
    (hblank : ∀ c ∈ css.toList, Text.isBlank c = true → isSpace c = true)
    (hwhole : sheet.isWhole = true) :
    ∃ again, Stylesheet.parse sheet.print = .ok again ∧ again.unplaced = sheet.unplaced := by
  obtain ⟨hnodes, hcharset⟩ := (Bool.and_eq_true _ _).mp hwhole
  obtain ⟨nodes, hread, hsheet⟩ := Outcome.bind_eq_ok.mp h
  cases hsheet
  have hlexemes := Css.lexemesAll_assemble (Css.lexemes .start css.toList)
  have hreadable : Readable none (Css.components css.toList) := by
    refine ⟨[], Css.sound_assemble _, ?_, nofun, ?_⟩
    · rw [List.append_nil, Css.components, hlexemes]
      exact Css.isCut_lexemes _ _
    · rw [Component.rawAll_eq, Css.components, hlexemes, Css.flatMap_raw_lexemes]
      exact hblank
  refine Stylesheet.parse_print ?_ (charsetFree_iff.mpr hcharset)
  exact nodesOf_printable _ _ (.between true) [] _ (Or.inl rfl) hreadable trivial hread hnodes

/-- A stylesheet of a line, with brackets and strings around stops and a rule that is
    left open. -/
def ribbons : String :=
  "@import url(a;b);/**/@media all\n\x7b.tab>a[x=\"\x7b\"]\x7bcolor:rgb( 1 )\x7d"
    ++ "@page\x7bsize:a4\x7d\x7d\x7b--gap:\x7bx;y\x7d;margin : 0 auto "

/-- The rule that is left open is closed where it is printed, and what is printed is
    read to the same nodes. -/
theorem ribbons_again :
    ∃ sheet again, Stylesheet.parse ribbons = .ok sheet ∧ sheet.isWhole = true
      ∧ Stylesheet.parse sheet.print = .ok again ∧ again.unplaced = sheet.unplaced := by
  have hread : (Stylesheet.parse ribbons).toOption.any Stylesheet.isWhole = true := by
    decide +kernel
  obtain ⟨sheet, hsheet, hwhole⟩ := (Option.any_eq_true _ _).mp hread
  have hparse := Outcome.toOption_eq_some_iff.mp hsheet
  have hblank : ∀ c ∈ ribbons.toList, Text.isBlank c = true → isSpace c = true := by
    have hall : ribbons.toList.all (fun c => !Text.isBlank c || isSpace c) = true := by
      decide +kernel
    intro c hc hblank
    simpa [hblank] using List.all_eq_true.mp hall c hc
  obtain ⟨again, hagain, hsame⟩ := Stylesheet.parse_print_parse hparse hblank hwhole
  exact ⟨sheet, again, hparse, hwhole, hagain, hsame⟩

/-- A name that begins with an escaped digit is printed as a number. -/
theorem Stylesheet.parse_print_parse_fails :
    ¬ ∀ (css : String) (sheet : Stylesheet), Stylesheet.parse css = .ok sheet →
      ∃ again, Stylesheet.parse sheet.print = .ok again ∧ again.unplaced = sheet.unplaced := by
  intro h
  have hread : (Stylesheet.parse ".a \x7b \\31 x: red; \x7d").toOption.any
      (fun sheet => (Stylesheet.parse sheet.print).toOption.isNone) = true := by
    decide +kernel
  obtain ⟨sheet, hsheet, hnone⟩ := (Option.any_eq_true _ _).mp hread
  obtain ⟨again, hagain, -⟩ := h _ sheet (Outcome.toOption_eq_some_iff.mp hsheet)
  rw [hagain] at hnone
  cases hnone

end ThemeTokens
