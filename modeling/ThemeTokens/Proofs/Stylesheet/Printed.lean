import ThemeTokens.Proofs.Css.Written
import ThemeTokens.Proofs.Stylesheet.Places
import ThemeTokens.Proofs.Text.Trim
import ThemeTokens.Stylesheet.Print

/-! # Stylesheets printed and read back

    Where names need no escapes and every selector, prelude and value stands
    alone, the printed text is read to the stylesheet that was printed, up to
    places (`Stylesheet.parse_print`).  The proof goes up the tree: each part is
    printed to a text that makes components of its own in front of whatever is
    printed behind it, and from these the part is read. -/

namespace ThemeTokens

open Css (Component Lexeme Token Closed Stands IsName cut isSpace isBlank_of_isSpace white)
open Css.Component (lexemesAll rawAll)

/-! ## Kept texts -/

/-- What is kept is trimmed. -/
theorem trimmed_keptText (raw : List Char) : Text.Trimmed (keptText raw).toList := by
  rw [keptText, String.toList_ofList]
  exact Text.trimmed_trim raw

/-- White space around a text is not kept. -/
theorem keptText_around {a b : List Char} (ha : ∀ c ∈ a, isSpace c = true)
    (hb : ∀ c ∈ b, isSpace c = true) {text : String} (h : Text.Trimmed text.toList) :
    keptText (a ++ text.toList ++ b) = text := by
  rw [keptText, Text.trim_around (fun c hc => isBlank_of_isSpace (ha c hc))
    (fun c hc => isBlank_of_isSpace (hb c hc)) h, String.ofList_toList]

/-- A trimmed text does not begin with white space. -/
theorem head?_trimmed {text : List Char} (h : Text.Trimmed text) :
    ∀ c ∈ text.head?, isSpace c = false := by
  intro c hc
  cases hspace : isSpace c with
  | false => rfl
  | true =>
      have hblank := h.1 c hc
      rw [isBlank_of_isSpace hspace] at hblank
      cases hblank

/-- A trimmed text does not end with white space. -/
theorem getLast?_trimmed {text : List Char} (h : Text.Trimmed text) :
    ∀ c ∈ text.getLast?, isSpace c = false := by
  intro c hc
  cases hspace : isSpace c with
  | false => rfl
  | true =>
      have hblank := h.2 c hc
      rw [isBlank_of_isSpace hspace] at hblank
      cases hblank

theorem isSpace_blank : ∀ c ∈ [' '], isSpace c = true :=
  List.forall_mem_singleton.mpr rfl

theorem isSpace_line : ∀ c ∈ ['\n'], isSpace c = true :=
  List.forall_mem_singleton.mpr rfl

theorem head?_semicolon (w : List Char) : ∀ c ∈ (';' :: w).head?, isSpace c = false := by
  intro c hc
  rw [← Option.some.inj hc]
  rfl

/-- An indent is white space. -/
theorem isSpace_indent (depth : Nat) : ∀ c ∈ indent depth, isSpace c = true := by
  intro c hc
  rw [List.eq_of_mem_replicate hc]
  rfl

/-! ## Declarations -/

/-- What lets a declaration be read as it is printed. -/
structure Declaration.Printable (d : Declaration) : Prop where
  name : IsName d.property.toList
  trimmed : Text.Trimmed d.value.toList
  value : Stands (some .closeCurly) (fun heads => Token.semicolon ∉ heads) d.value.toList

/-- White space between declarations is passed over. -/
theorem declarationsOf_white (stop : Location) (sp : List Char) (cs : List Component) :
    declarationsOf stop .between (white sp ++ cs) = declarationsOf stop .between cs := by
  rw [white]
  split
  · rfl
  · exact declarationsOf_skip rfl

/-- Up to a semicolon all belongs to the value. -/
theorem declarationsOf_values {stop behind : Location} {property : String} {ds : List Component}
    (h : Token.semicolon ∉ ds.map Component.head) (value : List Char) (cs : List Component) :
    declarationsOf stop (.valued property behind value) (ds ++ cs)
      = declarationsOf stop (.valued property behind (value ++ rawAll ds)) cs := by
  induction ds generalizing value with
  | nil => rw [rawAll, List.append_nil, List.nil_append]
  | cons c ds ih =>
      rw [List.map_cons, List.mem_cons, not_or] at h
      have hc : ¬ c.isSemicolon = true := fun hc => h.1 (head_of_isSemicolon hc).symm
      rw [List.cons_append, declarationsOf_value hc, ih h.2, rawAll, List.append_assoc]

theorem isSpace_of_isNameChar {c : Char} (h : Css.isNameChar c = true) : isSpace c = false := by
  cases hc : isSpace c with
  | false => rfl
  | true =>
      have hnot := Css.eq_false_of_mem_enders (P := Css.isNameChar) (by decide)
        (Css.mem_enders_of_isSpace hc)
      rw [hnot] at h
      cases h

theorem head?_name {name : List Char} (h : IsName name) (w : List Char) :
    ∀ c ∈ (name ++ w).head?, isSpace c = false := by
  cases name with
  | nil => cases h.1
  | cons c name =>
      intro d hd
      rw [← Option.some.inj hd]
      exact isSpace_of_isNameChar (h.2 c (List.mem_cons_self ..))

/-- What a declaration is printed to is read to it, whatever comes behind. -/
theorem Declaration.cut_print {d : Declaration} (h : d.Printable) (depth : Nat) {sp : List Char}
    (hsp : ∀ c ∈ sp, isSpace c = true) (w : List Char) :
    ∃ cs, cut (sp ++ (d.print depth ++ w)) = lexemesAll cs ++ cut ('\n' :: w)
      ∧ Closed (some .closeCurly) cs
      ∧ ∀ rest, declarationsOf .none .between (cs ++ rest)
        = (do
            let ds ← declarationsOf .none .between rest
            return d.unplaced :: ds) := by
  have htext : sp ++ (d.print depth ++ w)
      = (sp ++ indent depth) ++ (d.property.toList ++ ':' :: ([' '] ++ (d.value.toList
        ++ ';' :: '\n' :: w))) := by
    simp [Declaration.print]
  obtain ⟨ds, sp', w', hsplit, hsp', hclosed, hstop, hraw, hvalue⟩ :=
    h.value.reads (getLast?_trimmed h.trimmed) (.semicolon ('\n' :: w))
  -- No blank stands between the value and the semicolon.
  obtain ⟨b, hb, rfl⟩ := Css.spaces_split (a := []) (head?_semicolon _) hsp' hsplit
  obtain ⟨rfl, rfl⟩ := List.append_eq_nil_iff.mp hb.symm
  have hgap := Css.cut_white isSpace_blank
    (Css.head?_append (head?_trimmed h.trimmed) (head?_semicolon ('\n' :: w)))
  have hlead := Css.cut_white (List.forall_mem_append.mpr ⟨hsp, isSpace_indent depth⟩)
    (head?_name h.name (':' :: ([' '] ++ (d.value.toList ++ ';' :: '\n' :: w))))
  refine ⟨white (sp ++ indent depth)
    ++ (.token ⟨.ident (String.ofList d.property.toList), d.property.toList, .none, .none⟩
      :: .token ⟨.colon, [':'], .none, .none⟩ :: (white [' '] ++ (ds ++ [.token Css.semicolon]))),
    ?_, ?_, fun rest => ?_⟩
  · rw [htext, hlead, Css.cut_property h.name, hgap, hvalue, List.nil_append, Css.cut_semicolon]
    simp [Component.lexemesAll_append, lexemesAll, Component.lexemes]
  · have hwhite : ∀ sp, Closed (some .closeCurly) (white sp) := Css.closed_white (Or.inr rfl)
    exact (hwhite _).append (.token rfl nofun (.token rfl nofun
      ((hwhite _).append (hclosed.append (.token rfl nofun .nil)))))
  · have hkept := keptText_around isSpace_blank (b := []) (List.forall_mem_nil _) h.trimmed
    rw [List.append_assoc, declarationsOf_white, List.cons_append, declarationsOf_ident rfl,
      List.cons_append, declarationsOf_colon rfl, List.append_assoc,
      declarationsOf_values (by simp [white, Component.head]), List.append_assoc,
      declarationsOf_values hstop, List.singleton_append, declarationsOf_semicolon rfl,
      Css.rawAll_white, hraw, List.nil_append, ← List.append_assoc, hkept, String.ofList_toList]
    rfl

/-- Between white space and something else, the text makes components in a block
    that `closer` closes, and `P` holds of them. -/
def Fills (closer : Option Token) (P : List Component → Prop) (text : List Char) : Prop :=
  ∀ sp tail w : List Char, (∀ c ∈ sp, isSpace c = true) → (∀ c ∈ tail, isSpace c = true) →
    (∀ c ∈ w.head?, isSpace c = false) →
    ∃ cs, cut (sp ++ (text ++ (tail ++ w))) = lexemesAll cs ++ cut w ∧ Closed closer cs ∧ P cs

/-- White space alone. -/
theorem fills_nil {closer : Option Token} (h : Css.Outer closer) {P : List Component → Prop}
    (hP : ∀ sp, P (white sp)) : Fills closer P [] := by
  intro sp tail w hsp htail hw
  refine ⟨white (sp ++ tail), ?_, Css.closed_white h _, hP _⟩
  rw [List.nil_append, ← List.append_assoc,
    Css.cut_white (List.forall_mem_append.mpr ⟨hsp, htail⟩) hw]

/-- **DECLARATIONS**: the lines of declarations are read to them. -/
theorem fills_declarations {ds : List Declaration} (h : ∀ d ∈ ds, d.Printable) (depth : Nat) :
    Fills (some .closeCurly)
      (fun cs => declarationsOf .none .between cs = .ok (ds.map Declaration.unplaced))
      (ds.flatMap (Declaration.print depth)) := by
  induction ds with
  | nil =>
      refine fills_nil (Or.inr rfl) fun sp => ?_
      have hwhite := declarationsOf_white .none sp []
      rw [List.append_nil] at hwhite
      exact hwhite
  | cons d ds ih =>
      intro sp tail w hsp htail hw
      obtain ⟨hd, hds⟩ := List.forall_mem_cons.mp h
      obtain ⟨first, hcut, hclosed, hfirst⟩ := Declaration.cut_print hd depth hsp
        (ds.flatMap (Declaration.print depth) ++ (tail ++ w))
      obtain ⟨cs, hcuts, hcloseds, hrest⟩ := ih hds ['\n'] tail w isSpace_line htail hw
      refine ⟨first ++ cs, ?_, hclosed.append hcloseds, ?_⟩
      · rw [List.flatMap_cons, List.append_assoc, hcut, Component.lexemesAll_append,
          List.append_assoc, ← hcuts]
        rfl
      · show declarationsOf .none .between (first ++ cs) = _
        rw [hfirst, hrest]
        rfl

/-! ## Blocks -/

/-- A block in curly brackets. -/
def curly (cs : List Component) : Component :=
  .block ⟨.openCurly, ['\x7b'], .none, .none⟩ cs (some ⟨.closeCurly, ['\x7d'], .none, .none⟩)

/-- A block in curly brackets is closed, whatever is around it. -/
theorem closed_curly {closer : Option Token} {cs : List Component}
    (h : Closed (some .closeCurly) cs) : Closed closer [curly cs] :=
  .block rfl h .nil

/-- A block is printed around what fills it. -/
theorem cut_curly {P : List Component → Prop} {body : List Char}
    (h : Fills (some .closeCurly) P body) (depth : Nat) (w : List Char) :
    ∃ cs, cut ('\x7b' :: '\n' :: (body ++ (closeLine depth ++ w)))
        = lexemesAll [curly cs] ++ cut ('\n' :: w)
      ∧ Closed (some .closeCurly) cs ∧ P cs := by
  obtain ⟨cs, hcut, hclosed, hP⟩ := h ['\n'] (indent depth) ('\x7d' :: '\n' :: w) isSpace_line
    (isSpace_indent depth) (by simp [isSpace, Css.isNewline])
  refine ⟨cs, ?_, hclosed, hP⟩
  have hopen : cut ('\x7b' :: '\n' :: (body ++ (closeLine depth ++ w)))
      = ⟨.openCurly, ['\x7b'], .none, .none⟩ :: cut ('\n' :: (body ++ (closeLine depth ++ w))) :=
    Css.cut_cons _ _
  have hclose : cut ('\x7d' :: '\n' :: w)
      = ⟨.closeCurly, ['\x7d'], .none, .none⟩ :: cut ('\n' :: w) := Css.cut_cons _ _
  rw [hclose] at hcut
  rw [hopen, closeLine, List.append_assoc]
  refine (congrArg (List.cons _) hcut).trans ?_
  simp [lexemesAll, Component.lexemes, curly]

/-! ## Rules -/

/-- What the tokens of a selector are not. -/
def IsSelector (heads : List Token) : Prop :=
  Token.openCurly ∉ heads
    ∧ ∀ t ∈ heads.head?, separatesRules t = false ∧ ∀ name, t ≠ .atKeyword name

/-- What lets a rule be read as it is printed, in a block that `closer` closes. -/
structure Rule.Printable (closer : Option Token) (r : Rule) : Prop where
  trimmed : Text.Trimmed r.selector.toList
  selector : Stands closer IsSelector r.selector.toList
  declarations : ∀ d ∈ r.declarations, d.Printable

/-- What the tokens of a prelude are not. -/
def IsPrelude (heads : List Token) : Prop :=
  Token.semicolon ∉ heads ∧ Token.openCurly ∉ heads

/-- What lets the head of an at-rule be read as it is printed. -/
structure AtHead.Printable (closer : Option Token) (head : AtHead) : Prop where
  name : IsName head.name.toList
  trimmed : Text.Trimmed head.prelude.toList
  prelude : Stands closer IsPrelude head.prelude.toList

/-- The name of an at-rule. -/
def Node.atName? : Node → Option String
  | .rule _ => none
  | .atStatement head => some head.name
  | .atRules head _ => some head.name
  | .atDeclarations head _ => some head.name

/-- No list of rules begins with the at-rule that names an encoding, which is
    dropped. -/
def CharsetFree (nodes : List Node) : Prop :=
  ∀ n ∈ nodes.head?, ∀ name ∈ n.atName?, isCharset name = false

mutual

/-- What lets a node be read as it is printed. -/
def Node.Printable (closer : Option Token) : Node → Prop
  | .rule r => r.Printable closer
  | .atStatement head => head.Printable closer
  | .atRules head nodes =>
      head.Printable closer ∧ holdsDeclarations head.name = false
        ∧ Node.AllPrintable (some .closeCurly) nodes ∧ CharsetFree nodes
  | .atDeclarations head ds =>
      head.Printable closer ∧ holdsDeclarations head.name = true ∧ ∀ d ∈ ds, d.Printable

/-- What lets nodes be read as they are printed. -/
def Node.AllPrintable (closer : Option Token) : List Node → Prop
  | [] => True
  | n :: ns => n.Printable closer ∧ Node.AllPrintable closer ns

end

/-- White space between rules is passed over. -/
theorem nodesOf_white (stop here : Location) (first : Bool) (sp : List Char)
    (cs : List Component) :
    nodesOf stop here (.between first) (white sp ++ cs)
      = nodesOf stop here (.between first) cs := by
  rw [white]
  split
  · rfl
  · exact nodesOf_separator rfl

/-- Up to a block in curly brackets all belongs to the selector. -/
theorem nodesOf_selectors {stop here start : Location} {ds : List Component}
    (h : Token.openCurly ∉ ds.map Component.head) (text : List Char) (cs : List Component) :
    nodesOf stop here (.qualified start text) (ds ++ cs)
      = nodesOf stop here (.qualified start (text ++ rawAll ds)) cs := by
  induction ds generalizing text with
  | nil => rw [rawAll, List.append_nil, List.nil_append]
  | cons c ds ih =>
      rw [List.map_cons, List.mem_cons, not_or] at h
      have hc : ¬ c.isCurly = true := fun hc => h.1 (head_of_isCurly hc).symm
      rw [List.cons_append, nodesOf_selector hc, ih h.2, rawAll, List.append_assoc]

/-- Up to a semicolon or such a block all belongs to the prelude. -/
theorem nodesOf_preludes {stop here start : Location} {name : String} {ds : List Component}
    (h : IsPrelude (ds.map Component.head)) (text : List Char) (cs : List Component) :
    nodesOf stop here (.atRule name start text) (ds ++ cs)
      = nodesOf stop here (.atRule name start (text ++ rawAll ds)) cs := by
  induction ds generalizing text with
  | nil => rw [rawAll, List.append_nil, List.nil_append]
  | cons c ds ih =>
      obtain ⟨hsemicolon, hcurly⟩ := h
      rw [List.map_cons, List.mem_cons, not_or] at hsemicolon hcurly
      rw [List.cons_append, nodesOf_prelude (fun hc => hsemicolon.1 (head_of_isSemicolon hc).symm)
        (fun hc => hcurly.1 (head_of_isCurly hc).symm), ih ⟨hsemicolon.2, hcurly.2⟩, rawAll,
        List.append_assoc]

theorem isPrelude_white (sp : List Char) : IsPrelude ((white sp).map Component.head) := by
  rw [white]
  split
  · exact ⟨List.not_mem_nil, List.not_mem_nil⟩
  · exact ⟨by simp [Component.head], by simp [Component.head]⟩

/-- Preludes one behind the other are one prelude. -/
theorem IsPrelude.append {heads others : List Token} (h : IsPrelude heads)
    (hothers : IsPrelude others) : IsPrelude (heads ++ others) := by
  obtain ⟨hsemicolon, hcurly⟩ := h
  obtain ⟨hsemicolon', hcurly'⟩ := hothers
  exact ⟨fun h => (List.mem_append.mp h).elim hsemicolon hsemicolon',
    fun h => (List.mem_append.mp h).elim hcurly hcurly'⟩

/-- What stands behind a text and white space, parted anew: the text may have
    taken in some of the white space. -/
theorem reads_before {closer : Option Token} {shape : List Token → Prop} {text a : List Char}
    (h : Stands closer shape text) (ht : Text.Trimmed text) (ha : ∀ c ∈ a, isSpace c = true)
    {c : Char} (hc : Css.isStop c = true) (w : List Char) :
    ∃ ds sp b, a = sp ++ b ∧ Closed closer ds ∧ shape (ds.map Component.head)
      ∧ rawAll ds = text ++ sp
      ∧ cut (text ++ (a ++ c :: w)) = lexemesAll (ds ++ white b) ++ cut (c :: w) := by
  have hspace := Css.isSpace_of_isStop hc
  have hends := (Css.Ends.append_iff ha).mpr (.stop hc w)
  obtain ⟨ds, sp, w', hsplit, hsp, hclosed, hshape, hraw, hcut⟩ :=
    h.reads (getLast?_trimmed ht) hends
  obtain ⟨b, rfl, rfl⟩ := Css.spaces_split (by simp [hspace]) hsp hsplit
  refine ⟨ds, sp, b, rfl, hclosed, hshape, hraw, ?_⟩
  rw [hcut, Css.cut_white (List.forall_mem_append.mp ha).2 (by simp [hspace]),
    Component.lexemesAll_append, List.append_assoc]

/-- What the head of an at-rule is printed to is read to it in front of a stop. -/
theorem AtHead.cut_print {closer : Option Token} (hout : Css.Outer closer) {head : AtHead}
    (h : head.Printable closer) {sp a : List Char} (hsp : ∀ c ∈ sp, isSpace c = true)
    (ha : ∀ c ∈ a, isSpace c = true) {c : Char} (hc : Css.isStop c = true) (w : List Char) :
    ∃ cs text, cut (sp ++ (head.print ++ (a ++ c :: w))) = lexemesAll cs ++ cut (c :: w)
      ∧ Closed closer cs ∧ keptText text = head.prelude
      ∧ ∀ first rest, (first && isCharset head.name) = false →
        nodesOf .none .none (.between first) (cs ++ rest)
          = nodesOf .none .none (.atRule head.name .none text) rest := by
  -- Whatever components the prelude makes, the name stands in front of them.
  have named : ∀ {ds : List Component} {rest : List Char}, Css.name rest = .none rest →
      cut rest = lexemesAll ds ++ cut (c :: w) → Closed closer ds →
      IsPrelude (ds.map Component.head) → keptText (rawAll ds) = head.prelude →
      ∃ cs text, cut (sp ++ ('@' :: (head.name.toList ++ rest))) = lexemesAll cs ++ cut (c :: w)
        ∧ Closed closer cs ∧ keptText text = head.prelude
        ∧ ∀ first more, (first && isCharset head.name) = false →
          nodesOf .none .none (.between first) (cs ++ more)
            = nodesOf .none .none (.atRule head.name .none text) more := by
    intro ds rest hname hcut hclosed hprelude hkept
    refine ⟨white sp ++ .token ⟨.atKeyword (String.ofList head.name.toList),
      '@' :: head.name.toList, .none, .none⟩ :: ds, rawAll ds, ?_, ?_, hkept, ?_⟩
    · rw [Css.cut_white hsp (by simp [isSpace, Css.isNewline]), Css.cut_at h.name hname, hcut]
      simp [Component.lexemesAll_append, lexemesAll, Component.lexemes]
    · exact (Css.closed_white hout _).append (.token rfl (hout.ne Token.noConfusion) hclosed)
    · intro first more hfirst
      rw [List.append_assoc, nodesOf_white, List.cons_append, nodesOf_atKeyword rfl,
        String.ofList_toList, if_neg (by simp [hfirst]), nodesOf_preludes hprelude,
        List.nil_append]
      rfl
  have hends := (Css.Ends.append_iff ha).mpr (.stop hc w)
  by_cases hempty : head.prelude.isEmpty = true
  · have hprint : sp ++ (head.print ++ (a ++ c :: w))
        = sp ++ ('@' :: (head.name.toList ++ (a ++ c :: w))) := by
      rw [AtHead.print, if_pos hempty]
      simp
    rw [hprint]
    refine named (Css.name_of_ends hends)
      (Css.cut_white ha (by simp [Css.isSpace_of_isStop hc])) (Css.closed_white hout a)
      (isPrelude_white a) ?_
    have hname : head.prelude = "" := String.isEmpty_iff.mp hempty
    have hkept := keptText_around ha (b := []) (List.forall_mem_nil _) h.trimmed
    rw [Css.rawAll_white]
    rw [hname] at hkept ⊢
    rwa [String.toList_empty, List.append_nil, List.append_nil] at hkept
  · have hprint : sp ++ (head.print ++ (a ++ c :: w))
        = sp ++ ('@' :: (head.name.toList
          ++ ([' '] ++ (head.prelude.toList ++ (a ++ c :: w))))) := by
      rw [AtHead.print, if_neg hempty]
      simp
    obtain ⟨ds, sp', b, rfl, hclosed, hprelude, hraw, hcut⟩ :=
      reads_before h.prelude h.trimmed ha hc w
    have hne : head.prelude.toList ≠ [] := fun hnil =>
      hempty (String.isEmpty_iff.mpr (String.toList_eq_nil_iff.mp hnil))
    have hgap := Css.cut_white isSpace_blank
      (Css.head?_append_of_ne_nil (head?_trimmed h.trimmed) hne ((sp' ++ b) ++ c :: w))
    rw [hprint]
    refine named (Css.name_of_breaks (by decide) _) (hgap.trans ?_)
      ((Css.closed_white hout [' ']).append (hclosed.append (Css.closed_white hout b))) ?_ ?_
    · rw [hcut, Component.lexemesAll_append (white [' ']), List.append_assoc]
    · rw [List.map_append, List.map_append]
      exact (isPrelude_white _).append (hprelude.append (isPrelude_white _))
    · rw [Component.rawAll_append, Component.rawAll_append, Css.rawAll_white, Css.rawAll_white,
        hraw]
      have hkept := keptText_around isSpace_blank ha h.trimmed
      rwa [List.append_assoc, ← List.append_assoc head.prelude.toList] at hkept

/-- What a selector is printed to is read to it in front of a block. -/
theorem Rule.cut_selector {closer : Option Token} (hout : Css.Outer closer) {r : Rule}
    (h : r.Printable closer) {sp : List Char} (hsp : ∀ c ∈ sp, isSpace c = true)
    (w : List Char) :
    ∃ cs, cut (sp ++ (r.selector.toList ++ ([' '] ++ '\x7b' :: w)))
        = lexemesAll cs ++ cut ('\x7b' :: w)
      ∧ Closed closer cs
      ∧ ∀ first inner rest, nodesOf .none .none (.between first) (cs ++ curly inner :: rest)
        = (do
            let ds ← declarationsOf .none .between inner
            let ns ← nodesOf .none .none (.between false) rest
            return .rule ⟨r.selector, ds, .none⟩ :: ns) := by
  by_cases hempty : r.selector.toList = []
  · refine ⟨white (sp ++ [' ']), ?_, Css.closed_white hout _, fun first inner rest => ?_⟩
    · rw [hempty, List.nil_append, ← List.append_assoc,
        Css.cut_white (List.forall_mem_append.mpr ⟨hsp, isSpace_blank⟩)
          (by simp [isSpace, Css.isNewline])]
    · have hname : r.selector = "" := String.toList_eq_nil_iff.mp hempty
      have hsep : ¬ separatesRules (curly inner).head = true := Bool.false_ne_true
      rw [nodesOf_white, nodesOf_block hsep rfl, hname]
      rfl
  · obtain ⟨ds, sp', b, hb, hclosed, hshape, hraw, hcut⟩ :=
      reads_before h.selector h.trimmed isSpace_blank (c := '\x7b') rfl w
    have hlead := Css.cut_white hsp
      (Css.head?_append_of_ne_nil (head?_trimmed h.trimmed) hempty ([' '] ++ '\x7b' :: w))
    refine ⟨white sp ++ (ds ++ white b), ?_, (Css.closed_white hout _).append
      (hclosed.append (Css.closed_white hout _)), fun first inner rest => ?_⟩
    · rw [hlead, hcut, Component.lexemesAll_append (white sp), List.append_assoc]
    cases ds with
    | nil => exact absurd (List.append_eq_nil_iff.mp hraw.symm).1 hempty
    | cons d ds =>
        obtain ⟨hcurly, hfirst⟩ := hshape
        rw [List.map_cons, List.mem_cons, not_or] at hcurly
        obtain ⟨hsep, hat⟩ := hfirst d.head rfl
        have hstart : d.start = .none := by
          obtain ⟨l, hl, hstart⟩ := d.start_eq
          have hmem : l ∈ cut (r.selector.toList ++ ([' '] ++ '\x7b' :: w)) := by
            rw [hcut]
            exact List.mem_append_left _ (List.mem_append_left _ hl)
          exact hstart.trans (Css.start_of_mem_cut hmem)
        have hkept : keptText (d.raw ++ rawAll (ds ++ white b)) = r.selector := by
          have hkept := keptText_around (a := []) (List.forall_mem_nil _) isSpace_blank h.trimmed
          rw [rawAll] at hraw
          rwa [Component.rawAll_append, Css.rawAll_white, ← List.append_assoc, hraw,
            List.append_assoc, ← hb]
        have hopen : Token.openCurly ∉ (ds ++ white b).map Component.head := by
          rw [List.map_append]
          exact fun hmem => (List.mem_append.mp hmem).elim hcurly.2 (isPrelude_white b).2
        rw [List.append_assoc, nodesOf_white, List.append_assoc, List.cons_append,
          nodesOf_qualified (by simp [hsep]) (fun hc => hcurly.1 (head_of_isCurly hc).symm) hat,
          ← List.append_assoc, nodesOf_selectors hopen, nodesOf_rule rfl, hkept, hstart]
        rfl

/-- What an at-rule with a block is printed to is read to its head and block. -/
theorem AtHead.cut_block {closer : Option Token} (hout : Css.Outer closer) {head : AtHead}
    (h : head.Printable closer) {P : List Component → Prop} {body : List Char}
    (hbody : Fills (some .closeCurly) P body) (depth : Nat) {sp : List Char}
    (hsp : ∀ c ∈ sp, isSpace c = true) (w : List Char) :
    ∃ cs text inner, cut (sp ++ (openLine depth head.print ++ body ++ closeLine depth ++ w))
        = lexemesAll cs ++ cut ('\n' :: w)
      ∧ Closed closer cs ∧ P inner ∧ keptText text = head.prelude
      ∧ ∀ first rest, (first && isCharset head.name) = false →
        nodesOf .none .none (.between first) (cs ++ rest)
          = nodesOf .none .none (.atRule head.name .none text) (curly inner :: rest) := by
  obtain ⟨inner, hblock, hinner, hP⟩ := cut_curly hbody depth w
  obtain ⟨cs, text, hcut, hclosed, hkept, hreads⟩ := AtHead.cut_print hout h
    (List.forall_mem_append.mpr ⟨hsp, isSpace_indent depth⟩) isSpace_blank (c := '\x7b') rfl
    ('\n' :: (body ++ (closeLine depth ++ w)))
  have htext : sp ++ (openLine depth head.print ++ body ++ closeLine depth ++ w)
      = (sp ++ indent depth) ++ (head.print ++ ([' '] ++ '\x7b' :: '\n' ::
        (body ++ (closeLine depth ++ w)))) := by
    simp [openLine]
  refine ⟨cs ++ [curly inner], text, inner, ?_, hclosed.append (closed_curly hinner), hP, hkept,
    fun first rest hfirst => ?_⟩
  · rw [htext, hcut, hblock, Component.lexemesAll_append, List.append_assoc]
  · rw [List.append_assoc, hreads first _ hfirst, List.singleton_append]

mutual

/-- What a node is printed to is read to it, whatever comes behind. -/
theorem Node.cut_print {closer : Option Token} (hout : Css.Outer closer) {n : Node}
    (h : n.Printable closer) (depth : Nat) {sp : List Char}
    (hsp : ∀ c ∈ sp, isSpace c = true) (w : List Char) :
    ∃ cs, cut (sp ++ (n.print depth ++ w)) = lexemesAll cs ++ cut ('\n' :: w)
      ∧ Closed closer cs
      ∧ ∀ first rest, (∀ name ∈ n.atName?, (first && isCharset name) = false) →
        nodesOf .none .none (.between first) (cs ++ rest)
          = (do
              let ns ← nodesOf .none .none (.between false) rest
              return n.unplaced :: ns) := by
  cases n with
  | rule r =>
      obtain ⟨inner, hblock, hinner, hdeclarations⟩ :=
        cut_curly (fills_declarations h.declarations (depth + 1)) depth w
      obtain ⟨cs, hcut, hclosed, hreads⟩ := Rule.cut_selector hout h
        (List.forall_mem_append.mpr ⟨hsp, isSpace_indent depth⟩)
        ('\n' :: (r.declarations.flatMap (Declaration.print (depth + 1)) ++ (closeLine depth ++ w)))
      have htext : sp ++ ((Node.rule r).print depth ++ w)
          = (sp ++ indent depth) ++ (r.selector.toList ++ ([' '] ++ '\x7b' :: '\n' ::
            (r.declarations.flatMap (Declaration.print (depth + 1))
              ++ (closeLine depth ++ w)))) := by
        simp [Node.print, Rule.print, openLine]
      refine ⟨cs ++ [curly inner], ?_, hclosed.append (closed_curly hinner),
        fun first rest _ => ?_⟩
      · rw [htext, hcut, hblock, Component.lexemesAll_append, List.append_assoc]
      · rw [List.append_assoc, List.singleton_append, hreads, hdeclarations]
        rfl
  | atStatement head =>
      obtain ⟨cs, text, hcut, hclosed, hkept, hreads⟩ := AtHead.cut_print hout h
        (List.forall_mem_append.mpr ⟨hsp, isSpace_indent depth⟩) (a := [])
        (List.forall_mem_nil _) (c := ';') rfl ('\n' :: w)
      have htext : sp ++ ((Node.atStatement head).print depth ++ w)
          = (sp ++ indent depth) ++ (head.print ++ ([] ++ ';' :: '\n' :: w)) := by
        simp [Node.print]
      have hne : Token.semicolon ≠ .closeCurly := nofun
      refine ⟨cs ++ [.token Css.semicolon], ?_, hclosed.append (.token rfl (hout.ne hne) .nil),
        fun first rest hfirst => ?_⟩
      · rw [htext, hcut, Css.cut_semicolon, Component.lexemesAll_append, List.append_assoc]
        rfl
      · rw [List.append_assoc, hreads first _ (hfirst _ rfl), List.singleton_append,
          nodesOf_statement rfl, hkept]
        rfl
  | atRules head nodes =>
      obtain ⟨hhead, hholds, hnodes, hcharset⟩ := h
      obtain ⟨cs, text, inner, hcut, hclosed, hinner, hkept, hreads⟩ := AtHead.cut_block hout hhead
        (Node.fills_printAll (Or.inr rfl) hnodes (depth + 1) true fun _ => hcharset) depth hsp w
      refine ⟨cs, ?_, hclosed, fun first rest hfirst => ?_⟩
      · rw [Node.print]
        exact hcut
      · rw [hreads first rest (hfirst _ rfl), nodesOf_atRules rfl (by simp [hholds]), hkept]
        show (nodesOf .none .none (.between true) inner >>= _) = _
        rw [hinner]
        rfl
  | atDeclarations head ds =>
      obtain ⟨hhead, hholds, hds⟩ := h
      obtain ⟨cs, text, inner, hcut, hclosed, hinner, hkept, hreads⟩ := AtHead.cut_block hout hhead
        (fills_declarations hds (depth + 1)) depth hsp w
      refine ⟨cs, ?_, hclosed, fun first rest hfirst => ?_⟩
      · rw [Node.print]
        exact hcut
      · rw [hreads first rest (hfirst _ rfl), nodesOf_atDeclarations rfl hholds, hkept]
        show (declarationsOf .none .between inner >>= _) = _
        rw [hinner]
        rfl

/-- **NODES**: printed nodes are read to them. -/
theorem Node.fills_printAll {closer : Option Token} (hout : Css.Outer closer) {ns : List Node}
    (h : Node.AllPrintable closer ns) (depth : Nat) (first : Bool)
    (hfirst : first = true → CharsetFree ns) :
    Fills closer
      (fun cs => nodesOf .none .none (.between first) cs = .ok (Node.unplacedAll ns))
      (Node.printAll depth ns) := by
  cases ns with
  | nil =>
      refine fills_nil hout fun sp => ?_
      have hwhite := nodesOf_white .none .none first sp []
      rw [List.append_nil] at hwhite
      exact hwhite
  | cons n ns =>
      obtain ⟨hn, hns⟩ := h
      intro sp tail w hsp htail hw
      have hfills := Node.fills_printAll hout hns depth false (fun h => Bool.noConfusion h)
      -- An empty line comes behind the node, unless it is the last.
      obtain ⟨gap, hgap, hprint⟩ : ∃ gap, (∀ c ∈ gap, isSpace c = true)
          ∧ Node.printAll depth (n :: ns) = n.print depth ++ (gap ++ Node.printAll depth ns) := by
        cases ns with
        | nil => exact ⟨[], List.forall_mem_nil _, (List.append_nil _).symm⟩
        | cons m ns => exact ⟨['\n'], isSpace_line, rfl⟩
      obtain ⟨cs, hcut, hclosed, hreads⟩ := Node.cut_print hout hn depth hsp
        (gap ++ (Node.printAll depth ns ++ (tail ++ w)))
      obtain ⟨rest, hcuts, hcloseds, hrest⟩ := hfills ('\n' :: gap) tail w
        (List.forall_mem_cons.mpr ⟨rfl, hgap⟩) htail hw
      refine ⟨cs ++ rest, ?_, hclosed.append hcloseds, ?_⟩
      · rw [hprint, List.append_assoc, List.append_assoc, hcut, Component.lexemesAll_append,
          List.append_assoc, ← hcuts]
        rfl
      · show nodesOf .none .none (.between first) (cs ++ rest) = _
        rw [hreads first rest, hrest]
        · rfl
        · intro name hname
          cases first with
          | false => rfl
          | true => exact hfirst rfl n rfl name hname

end

/-- **ROUND TRIP**: a printed stylesheet is read back, up to places. -/
theorem Stylesheet.parse_print {sheet : Stylesheet} (h : Node.AllPrintable none sheet.nodes)
    (hcharset : CharsetFree sheet.nodes) :
    ∃ read, Stylesheet.parse sheet.print = .ok read ∧ read.unplaced = sheet.unplaced := by
  obtain ⟨cs, hcut, hclosed, hreads⟩ := Node.fills_printAll (Or.inl rfl) h 0 true
    (fun _ => hcharset) [] [] [] (List.forall_mem_nil _) (List.forall_mem_nil _) (by simp)
  refine Stylesheet.parse_eq_ok_iff.mpr ?_
  rw [List.nil_append, List.append_nil, List.append_nil, Css.cut_nil, List.append_nil] at hcut
  rw [nodesWithin, Stylesheet.print, String.toList_ofList, hcut, Css.assemble_lexemesAll hclosed]
  exact hreads

end ThemeTokens
