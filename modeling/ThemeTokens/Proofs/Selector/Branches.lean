import Mathlib.Data.List.DropRight
import ThemeTokens.Proofs.Css.Excerpt
import ThemeTokens.Proofs.Css.Sound
import ThemeTokens.Proofs.Outcome
import ThemeTokens.Proofs.Selector
import ThemeTokens.Proofs.Text.Trim
import ThemeTokens.Stylesheet.Parse

/-! # Branches and tokens

    A selector list is cut at commas by its characters.  Where every bracket
    belongs to a block and no other token holds a comma, the branches are the
    groups of tokens between the commas outside of blocks.  Line breaks are
    dropped from a branch, and its tokens stay as long as they are separated
    otherwise (`split_tokens`); white space that is a line break alone is gone
    (`split_tokens_fails`). -/

namespace ThemeTokens

namespace Selector

open Css (Component Lexeme Token IsCut)
open Css.Component (lexemesAll rawAll)

/-! ## Depth -/

/-- From `depth` on no piece ends in the text, and behind it the depth is `depth'`. -/
def Leads (depth depth' : Nat) (cs : List Char) : Prop :=
  ∀ rest, pieces depth (cs ++ rest) = (pieces depth' rest).modifyHead (cs ++ ·)

/-- A character that ends no piece begins the next one. -/
theorem pieces_cons {depth : Nat} {c : Char} (h : ¬ (c = ',' ∧ depth = 0)) (cs : List Char) :
    pieces depth (c :: cs)
      = (pieces (if c = '(' ∨ c = '[' then depth + 1
          else if c = ')' ∨ c = ']' then depth - 1 else depth) cs).modifyHead (c :: ·) := by
  rw [pieces, if_neg h]
  dsimp only
  generalize (if c = '(' ∨ c = '[' then depth + 1
    else if c = ')' ∨ c = ']' then depth - 1 else depth) = inner
  cases hp : pieces inner cs with
  | nil => exact absurd hp (pieces_ne_nil inner cs)
  | cons piece more => rfl

namespace Leads

variable {depth depth' depth'' : Nat} {cs ds : List Char}

theorem nil : Leads depth depth [] := by
  intro rest
  cases hp : pieces depth rest with
  | nil => exact absurd hp (pieces_ne_nil depth rest)
  | cons piece more =>
      rw [List.nil_append, hp]
      rfl

/-- A text leads where its first part leads, and from there its second. -/
theorem append (hcs : Leads depth depth' cs) (hds : Leads depth' depth'' ds) :
    Leads depth depth'' (cs ++ ds) := by
  intro rest
  rw [List.append_assoc, hcs, hds, List.modifyHead_modifyHead]
  congr 1
  funext piece
  exact (List.append_assoc cs ds piece).symm

/-- An open parenthesis or bracket leads one deeper. -/
theorem opening {c : Char} (hc : c = '(' ∨ c = '[') : Leads depth (depth + 1) [c] := by
  have hcomma : ¬ (c = ',' ∧ depth = 0) := by
    rintro ⟨rfl, -⟩
    rcases hc with hc | hc
    · cases hc
    · cases hc
  intro rest
  rw [List.singleton_append, pieces_cons hcomma, if_pos hc]
  rfl

/-- A closing one leads back. -/
theorem closing {c : Char} (hc : c = ')' ∨ c = ']') : Leads (depth + 1) depth [c] := by
  have hopen : ¬ (c = '(' ∨ c = '[') := by
    rcases hc with rfl | rfl
    · decide
    · decide
  intro rest
  rw [List.singleton_append, pieces_cons fun h => Nat.succ_ne_zero depth h.2, if_neg hopen,
    if_pos hc]
  rfl

/-- Any other character leads nowhere, unless it is a comma outside of all
    brackets. -/
theorem other {c : Char} (hopen : ¬ (c = '(' ∨ c = '[')) (hclose : ¬ (c = ')' ∨ c = ']'))
    (hcomma : ¬ (c = ',' ∧ depth = 0)) : Leads depth depth [c] := by
  intro rest
  rw [List.singleton_append, pieces_cons hcomma, if_neg hopen, if_neg hclose]
  rfl

end Leads

/-- How deep the brackets lead from `depth` on, if they do not close more than they
    open.  With `outside`, no comma may stand at depth zero. -/
def climb (outside : Bool) (depth : Nat) : List Char → Option Nat
  | [] => some depth
  | c :: cs =>
      if c = '(' ∨ c = '[' then climb outside (depth + 1) cs
      else if c = ')' ∨ c = ']' then
        if depth = 0 then none else climb outside (depth - 1) cs
      else if outside ∧ depth = 0 ∧ c = ',' then none
      else climb outside depth cs

/-- A text leads as deep inside of other brackets as it does alone. -/
theorem leads_of_climb {outside : Bool} {cs : List Char} {k m : Nat}
    (h : climb outside k cs = some m) {depth : Nat} (hdepth : outside = false → depth ≠ 0) :
    Leads (depth + k) (depth + m) cs := by
  induction cs generalizing k with
  | nil =>
      rw [Option.some.inj h]
      exact .nil
  | cons c cs ih =>
      rw [climb] at h
      by_cases hopen : c = '(' ∨ c = '['
      · rw [if_pos hopen] at h
        exact (Leads.opening hopen).append (ih h)
      rw [if_neg hopen] at h
      by_cases hclose : c = ')' ∨ c = ']'
      · rw [if_pos hclose] at h
        cases k with
        | zero => cases h
        | succ k => exact (Leads.closing hclose).append (ih h)
      rw [if_neg hclose] at h
      have hcomma : ¬ (c = ',' ∧ depth + k = 0) := by
        rintro ⟨hc, hzero⟩
        obtain ⟨hdepth', hk⟩ := Nat.add_eq_zero_iff.mp hzero
        cases outside with
        | false => exact hdepth rfl hdepth'
        | true =>
            rw [if_pos ⟨rfl, hk, hc⟩] at h
            cases h
      by_cases hcut : outside = true ∧ k = 0 ∧ c = ','
      · rw [if_pos hcut] at h
        cases h
      · rw [if_neg hcut] at h
        exact (Leads.other hopen hclose hcomma).append (ih h)

/-! ## Blocks -/

/-- How much deeper it is behind a token that opens a block. -/
def rise (t : Token) : Nat :=
  if t = .openCurly then 0 else 1

mutual

/-- Whether each block of the component is closed and all other brackets are closed
    in the token that holds them.  `outside` of brackets, no comma stands in it. -/
def isSteady (outside : Bool) : Component → Bool
  | .token l => climb outside 0 l.raw == some 0
  | .block opening content closing =>
      (closing.any fun l => opening.token.closer? == some l.token)
        && climb outside 0 opening.raw == some (rise opening.token)
        && allSteady (outside && opening.token == .openCurly) content

/-- Whether all of the components are steady. -/
def allSteady (outside : Bool) : List Component → Bool
  | [] => true
  | c :: cs => isSteady outside c && allSteady outside cs

end

/-- What closes a block is written as one character, which leads back. -/
theorem leads_closer {t t' : Token} (h : t.closer? = some t') (depth : Nat) :
    ∃ c, t'.mark? = some c ∧ Leads (depth + rise t) depth [c] := by
  cases t with
  | function name =>
      obtain rfl := Option.some.inj h
      exact ⟨')', rfl, .closing (.inl rfl)⟩
  | openParenthesis =>
      obtain rfl := Option.some.inj h
      exact ⟨')', rfl, .closing (.inl rfl)⟩
  | openSquare =>
      obtain rfl := Option.some.inj h
      exact ⟨']', rfl, .closing (.inr rfl)⟩
  | openCurly =>
      obtain rfl := Option.some.inj h
      exact ⟨'\x7d', rfl, .other (by decide) (by decide) (by simp)⟩
  | _ => cases h

mutual

/-- A steady component is not cut, and behind it the depth is what it was. -/
theorem leads_raw (c : Component) {outside : Bool} (hsteady : isSteady outside c = true)
    (hspelled : ∀ l ∈ c.lexemes, l.token.Spelled l.raw) {depth : Nat}
    (hdepth : outside = false → depth ≠ 0) : Leads depth depth c.raw := by
  cases c with
  | token l => exact leads_of_climb (beq_iff_eq.mp hsteady) hdepth
  | block opening content closing =>
      cases closing with
      | none => cases hsteady
      | some l =>
          simp only [isSteady, Option.any_some, Bool.and_eq_true, beq_iff_eq] at hsteady
          obtain ⟨⟨hcloser, hopening⟩, hcontent⟩ := hsteady
          have hdeeper : (outside && opening.token == .openCurly) = false →
              depth + rise opening.token ≠ 0 := by
            intro hinside
            rw [Bool.and_eq_false_iff, beq_eq_false_iff_ne] at hinside
            rcases hinside with houtside | hcurly
            · exact fun hzero => hdepth houtside (Nat.add_eq_zero_iff.mp hzero).1
            · rw [rise, if_neg hcurly]
              exact Nat.succ_ne_zero depth
          have hinside := leads_rawAll content hcontent
            (fun k hk => hspelled k (by simp [Component.lexemes, hk])) hdeeper
          obtain ⟨c, hmark, hclosing⟩ := leads_closer hcloser depth
          have hraw := (hspelled l (by simp [Component.lexemes])).mark c hmark
          rw [Component.raw, hraw]
          exact ((leads_of_climb hopening hdepth).append hinside).append hclosing

/-- Steady components one behind the other are not cut either. -/
theorem leads_rawAll (cs : List Component) {outside : Bool} (hsteady : allSteady outside cs = true)
    (hspelled : ∀ l ∈ lexemesAll cs, l.token.Spelled l.raw) {depth : Nat}
    (hdepth : outside = false → depth ≠ 0) : Leads depth depth (rawAll cs) := by
  cases cs with
  | nil => exact .nil
  | cons c cs =>
      simp only [allSteady, Bool.and_eq_true] at hsteady
      rw [lexemesAll] at hspelled
      obtain ⟨hc, hcs⟩ := List.forall_mem_append.mp hspelled
      exact (leads_raw c hsteady.1 hc hdepth).append (leads_rawAll cs hsteady.2 hcs hdepth)

end

/-! ## Groups -/

/-- Whether this is a comma outside of all blocks. -/
def isComma : Component → Bool
  | .token l => l.token == .comma
  | .block _ _ _ => false

/-- Whether this is a comma outside of all blocks, or steady and without one. -/
def isSeparate (c : Component) : Bool :=
  isComma c || isSteady true c

/-- The components between the commas outside of blocks. -/
def groupsOf (cs : List Component) : List (List Component) :=
  cs.splitOnP isComma

/-- A comma outside of blocks ends an empty group in front of those that follow. -/
theorem groupsOf_comma {c : Component} (h : isComma c = true) (cs : List Component) :
    groupsOf (c :: cs) = [] :: groupsOf cs := by
  rw [groupsOf, List.splitOnP_cons_eq_if_modifyHead, if_pos h]
  rfl

/-- Any other component belongs to the first group. -/
theorem groupsOf_cons {c : Component} (h : isComma c = false) (cs : List Component) :
    groupsOf (c :: cs) = (groupsOf cs).modifyHead (c :: ·) := by
  rw [groupsOf, List.splitOnP_cons_eq_if_modifyHead, if_neg (by rw [h]; exact Bool.false_ne_true)]
  rfl

theorem groupsOf_ne_nil (cs : List Component) : groupsOf cs ≠ [] :=
  List.splitOnP_ne_nil isComma cs

/-- A comma outside of blocks is written as one. -/
theorem raw_of_isComma {c : Component} (h : isComma c = true)
    (hspelled : ∀ l ∈ c.lexemes, l.token.Spelled l.raw) : c.raw = [','] := by
  cases c with
  | token l =>
      have htoken : l.token = .comma := beq_iff_eq.mp h
      exact (hspelled l (List.mem_singleton_self l)).mark ',' (by rw [htoken]; rfl)
  | block opening content closing => cases h

/-- **PIECES**: the pieces of separate components are their groups, as written. -/
theorem pieces_rawAll {cs : List Component} (hseparate : ∀ c ∈ cs, isSeparate c = true)
    (hspelled : ∀ l ∈ lexemesAll cs, l.token.Spelled l.raw) :
    pieces 0 (rawAll cs) = (groupsOf cs).map rawAll := by
  induction cs with
  | nil => rfl
  | cons c cs ih =>
      obtain ⟨hc, hseparate⟩ := List.forall_mem_cons.mp hseparate
      rw [lexemesAll] at hspelled
      obtain ⟨hspelledc, hspelled⟩ := List.forall_mem_append.mp hspelled
      have hrest := ih hseparate hspelled
      rw [rawAll]
      cases hcomma : isComma c with
      | true =>
          rw [groupsOf_comma hcomma, raw_of_isComma hcomma hspelledc, List.singleton_append,
            pieces, if_pos ⟨rfl, rfl⟩, hrest]
          rfl
      | false =>
          rw [isSeparate, hcomma, Bool.false_or] at hc
          have hleads : Leads 0 0 c.raw := leads_raw c hc hspelledc (by decide)
          rw [hleads, hrest, groupsOf_cons hcomma]
          cases hgroups : groupsOf cs with
          | nil => exact absurd hgroups (groupsOf_ne_nil cs)
          | cons g gs => rfl

/-- The tokens of the first group are cut from its text, which is as good as the
    whole text behind other tokens, and so are those of the other groups from theirs. -/
theorem isCut_groupsOf {cs : List Component} (hcut : IsCut (lexemesAll cs)) :
    ∃ g gs, groupsOf cs = g :: gs
      ∧ ((∀ l ∈ lexemesAll g, l.IsIntact) →
          IsCut (lexemesAll g) ∧ Css.Follows (rawAll cs) (rawAll g))
      ∧ ∀ g ∈ gs, (∀ l ∈ lexemesAll g, l.IsIntact) → IsCut (lexemesAll g) := by
  induction cs with
  | nil => exact ⟨[], [], rfl, fun _ => ⟨.nil, .inl rfl⟩, List.forall_mem_nil _⟩
  | cons c cs ih =>
      rw [lexemesAll] at hcut
      obtain ⟨g, gs, hgroups, hg, hgs⟩ := ih hcut.right
      cases hcomma : isComma c with
      | true =>
          have hraw := raw_of_isComma hcomma fun l hl =>
            hcut.spelled_of_mem (List.mem_append_left _ hl)
          have hall : rawAll (c :: cs) = ',' :: rawAll cs := by
            rw [rawAll, hraw]
            rfl
          -- Behind the tokens in front, the comma is as good as the end of the text.
          refine ⟨[], groupsOf cs, groupsOf_comma hcomma cs, fun _ => ⟨.nil, ?_⟩, ?_⟩
          · rw [hall]
            exact Css.follows_nil (by decide) (by rw [Css.opensString_cons rfl]; decide)
          · rw [hgroups]
            exact List.forall_mem_cons.mpr ⟨fun hintact => (hg hintact).1, hgs⟩
      | false =>
          refine ⟨c :: g, gs, by rw [groupsOf_cons hcomma, hgroups]; rfl, fun hintact => ?_, hgs⟩
          rw [lexemesAll] at hintact
          obtain ⟨hc, hintact⟩ := List.forall_mem_append.mp hintact
          obtain ⟨hg, hfollows⟩ := hg hintact
          refine ⟨?_, ?_⟩
          · rw [Component.rawAll_eq, Component.rawAll_eq] at hfollows
            exact hcut.excerpt hc hg hfollows
          · rw [rawAll, rawAll, Component.raw_eq]
            exact hcut.follows_append hc hfollows

/-- The tokens of every group are cut from its text. -/
theorem isCut_of_mem_groupsOf {cs g : List Component} (hcut : IsCut (lexemesAll cs))
    (hg : g ∈ groupsOf cs) (hintact : ∀ l ∈ lexemesAll g, l.IsIntact) : IsCut (lexemesAll g) := by
  obtain ⟨first, gs, hgroups, hfirst, hgs⟩ := isCut_groupsOf hcut
  rw [hgroups] at hg
  rcases List.mem_cons.mp hg with rfl | hg
  · exact (hfirst hintact).1
  · exact hgs g hg hintact

/-! ## Words -/

/-- The runs of tokens between white space. -/
def words (ts : List Token) : List (List Token) :=
  (ts.splitOnP Token.isWhite).filter fun run => !run.isEmpty

/-- White space parts the words in front of it from those behind. -/
theorem words_append_white {t : Token} (h : t.isWhite = true) (ts us : List Token) :
    words (ts ++ t :: us) = words ts ++ words us := by
  rw [words, List.splitOnP_append_cons ts us h, List.filter_append]
  rfl

theorem words_nil : words [] = [] := by
  rw [words, List.splitOnP_nil]
  rfl

/-- White space alone has no words. -/
theorem words_white {ts : List Token} (h : ∀ t ∈ ts, t.isWhite = true) : words ts = [] := by
  induction ts with
  | nil => exact words_nil
  | cons t ts ih =>
      obtain ⟨ht, hts⟩ := List.forall_mem_cons.mp h
      rw [← List.nil_append (t :: ts), words_append_white ht, words_nil, ih hts]
      rfl

/-- White space around tokens does not count. -/
theorem words_around {a ts b : List Token} (ha : ∀ t ∈ a, t.isWhite = true)
    (hb : ∀ t ∈ b, t.isWhite = true) : words (a ++ ts ++ b) = words ts := by
  have hback : words (ts ++ b) = words ts := by
    cases b with
    | nil => rw [List.append_nil]
    | cons t b =>
        obtain ⟨ht, hb⟩ := List.forall_mem_cons.mp hb
        rw [words_append_white ht, words_white hb, List.append_nil]
  rw [List.append_assoc, ← hback]
  induction a with
  | nil => rfl
  | cons t a ih =>
      obtain ⟨ht, ha⟩ := List.forall_mem_cons.mp ha
      rw [List.cons_append, ← List.nil_append (t :: _), words_append_white ht, words_nil, ih ha]
      rfl

/-- Words are the same with line breaks as without. -/
theorem words_unbroken (ls : List Lexeme) :
    words ((ls.map Lexeme.unbroken).map Lexeme.token) = words (ls.map Lexeme.token) := by
  rw [words, words]
  congr 1
  induction ls with
  | nil => rfl
  | cons l ls ih =>
      simp only [List.map_cons, List.splitOnP_cons_eq_if_modifyHead, ih]
      cases hwhite : l.token.isWhite with
      | true =>
          rw [Lexeme.unbroken_of_white hwhite]
          rfl
      | false => rw [Lexeme.unbroken_of_not_white hwhite, hwhite]

/-! ## Branches -/

/-- The tokens without the white space around them. -/
def core (ls : List Lexeme) : List Lexeme :=
  (ls.dropWhile fun l => l.token.isWhite).rdropWhile fun l => l.token.isWhite

/-- The token is as it was without line breaks, whatever stands around it. -/
def isUnbroken (l : Lexeme) : Bool :=
  decide l.IsIntact && (l.token.isWhite || l.raw.all fun c => !Css.isLineBreak c)

/-- The tokens are the same without line breaks and trimmed: no line break stands
    for white space alone or in another token, and what stands between the white
    space around the tokens is trimmed. -/
def isFirm (ls : List Lexeme) : Bool :=
  ls.all isUnbroken
    && (core ls).all (fun l => !l.token.isWhite || !(Css.unbroken l.raw).isEmpty)
    && decide (Text.Trimmed ((core ls).flatMap Lexeme.raw))

/-- The tokens of a text. -/
def tokens (text : String) : List Token :=
  (Css.lexemes .start text.toList).map Lexeme.token

/-- The components of a selector list between the commas outside of blocks. -/
def groups (selector : String) : List (List Component) :=
  groupsOf (Css.components selector.toList)

/-- Every block is closed, all other brackets are closed in the token that holds them,
    and a comma that none of them stands around is a token outside of blocks. -/
def isClear (selector : String) : Bool :=
  (Css.components selector.toList).all isSeparate

/-- Around the core there is only white space. -/
theorem core_around (ls : List Lexeme) :
    ∃ a b, ls = a ++ core ls ++ b ∧ (∀ l ∈ a, l.token.isWhite = true)
      ∧ ∀ l ∈ b, l.token.isWhite = true := by
  refine ⟨ls.takeWhile fun l => l.token.isWhite,
    (ls.dropWhile fun l => l.token.isWhite).rtakeWhile fun l => l.token.isWhite, ?_,
    fun l hl => ?_, fun l hl => ?_⟩
  · rw [core, List.append_assoc, List.rdropWhile_append_rtakeWhile, List.takeWhile_append_dropWhile]
  · exact List.mem_takeWhile_imp (p := fun l : Lexeme => l.token.isWhite) hl
  · exact List.mem_rtakeWhile_imp (p := fun l : Lexeme => l.token.isWhite) hl

/-- What begins with no blank does so without its line breaks. -/
theorem head?_unbroken {cs : List Char} (h : ∀ c ∈ cs.head?, Text.isBlank c = false) :
    ∀ c ∈ (Css.unbroken cs).head?, Text.isBlank c = false := by
  cases cs with
  | nil => exact h
  | cons c cs =>
      have hc := h c rfl
      have hline : Css.isLineBreak c = false := by
        rw [Bool.eq_false_iff]
        intro hline
        simp only [Css.isLineBreak, Bool.or_eq_true, beq_iff_eq] at hline
        rcases hline with rfl | rfl
        · cases hc
        · cases hc
      rw [Css.unbroken, List.filter_cons_of_pos (by rw [hline]; rfl)]
      exact h

theorem trimmed_unbroken {cs : List Char} (h : Text.Trimmed cs) :
    Text.Trimmed (Css.unbroken cs) := by
  refine ⟨head?_unbroken h.1, ?_⟩
  have hlast : ∀ c ∈ cs.reverse.head?, Text.isBlank c = false := by
    rw [List.head?_reverse]
    exact h.2
  have hback := head?_unbroken hlast
  rwa [Css.unbroken, List.filter_reverse, List.head?_reverse] at hback

/-- Tokens without their line breaks are written as their text without its line
    breaks. -/
theorem flatMap_raw_unbroken {ls : List Lexeme} (h : ∀ l ∈ ls, isUnbroken l = true) :
    (ls.map Lexeme.unbroken).flatMap Lexeme.raw = Css.unbroken (ls.flatMap Lexeme.raw) := by
  induction ls with
  | nil => rfl
  | cons l ls ih =>
      obtain ⟨hl, hls⟩ := List.forall_mem_cons.mp h
      have hraw : l.unbroken.raw = Css.unbroken l.raw := by
        cases hwhite : l.token.isWhite with
        | true => rw [Lexeme.unbroken_of_white hwhite]
        | false =>
            simp only [isUnbroken, hwhite, Bool.false_or, Bool.and_eq_true] at hl
            rw [Lexeme.unbroken_of_not_white hwhite]
            exact (List.filter_eq_self.mpr fun c hc => List.all_eq_true.mp hl.2 c hc).symm
      rw [List.map_cons, List.flatMap_cons, List.flatMap_cons, ih hls, hraw, Css.unbroken_append]

theorem tokens_ofList (cs : List Char) :
    tokens (String.ofList cs) = (Css.cut cs).map Lexeme.token := by
  rw [tokens, String.toList_ofList, Css.cut, List.map_map]
  rfl

theorem isIntact_of_isUnbroken {l : Lexeme} (h : isUnbroken l = true) : l.IsIntact :=
  of_decide_eq_true (Bool.and_eq_true_iff.mp h).1

theorem isSpace_of_white {ls : List Lexeme} (hspelled : ∀ l ∈ ls, l.token.Spelled l.raw)
    (hwhite : ∀ l ∈ ls, l.token.isWhite = true) :
    ∀ c ∈ ls.flatMap Lexeme.raw, Css.isSpace c = true := by
  intro c hc
  obtain ⟨l, hl, hc⟩ := List.mem_flatMap.mp hc
  exact (hspelled l hl).white (hwhite l hl) c hc

/-- White space may be left off behind tokens. -/
theorem isCut_of_white_behind {ls b : List Lexeme} (hcut : IsCut (ls ++ b))
    (hintact : ∀ l ∈ ls, l.IsIntact) (hwhite : ∀ l ∈ b, l.token.isWhite = true) : IsCut ls := by
  have hspace := isSpace_of_white (fun _ hl => hcut.right.spelled_of_mem hl) hwhite
  have hfollows : Css.Follows (b.flatMap Lexeme.raw) [] := by
    cases htext : b.flatMap Lexeme.raw with
    | nil => exact .inl rfl
    | cons c w =>
        rw [htext] at hspace
        refine Css.follows_nil (List.mem_cons_of_mem _ (Css.mem_enders_of_isSpace
          (hspace c List.mem_cons_self))) ?_
        rw [← List.append_nil (c :: w), Css.opensString_spaces hspace]
        rintro (hquote | hquote)
        · cases hquote
        · cases hquote
  rw [← List.append_nil ls]
  exact hcut.excerpt hintact .nil hfollows

/-- The text without line breaks and blanks around it. -/
def branch (cs : List Char) : List Char :=
  Text.trim (Css.unbroken cs)

/-- White space around a text that is trimmed is not in the branch. -/
theorem branch_around {a cs b : List Char} (ha : ∀ c ∈ a, Css.isSpace c = true)
    (hb : ∀ c ∈ b, Css.isSpace c = true) (h : Text.Trimmed cs) :
    branch (a ++ cs ++ b) = Css.unbroken cs := by
  rw [branch, Css.unbroken_append, Css.unbroken_append]
  exact Text.trim_around
    (fun c hc => Css.isBlank_of_isSpace (ha c (Css.mem_unbroken hc).1))
    (fun c hc => Css.isBlank_of_isSpace (hb c (Css.mem_unbroken hc).1)) (trimmed_unbroken h)

/-- **A BRANCH**: firm tokens are made of their text without line breaks and
    trimmed. -/
theorem words_branch {ls : List Lexeme} (hcut : IsCut ls) (hfirm : isFirm ls = true) :
    words (tokens (String.ofList (branch (ls.flatMap Lexeme.raw))))
      = words (ls.map Lexeme.token) := by
  obtain ⟨a, b, hls, ha, hb⟩ := core_around ls
  simp only [isFirm, Bool.and_eq_true, decide_eq_true_eq, List.all_eq_true] at hfirm
  obtain ⟨⟨hunbroken, hblank⟩, htrimmed⟩ := hfirm
  generalize core ls = ks at *
  rw [hls]
  rw [hls, List.append_assoc] at hcut hunbroken
  have hks : ∀ l ∈ ks, isUnbroken l = true := fun l hl =>
    hunbroken l (List.mem_append_right a (List.mem_append_left b hl))
  have hintact := fun l hl => isIntact_of_isUnbroken (hks l hl)
  have hfront := isSpace_of_white
    (fun l hl => hcut.spelled_of_mem (List.mem_append_left (ks ++ b) hl)) ha
  have hback := isSpace_of_white (fun l hl => hcut.right.right.spelled_of_mem hl) hb
  -- First the white space behind goes, then the line breaks between the tokens.
  have hmade : IsCut (ks.map Lexeme.unbroken) :=
    (isCut_of_white_behind hcut.right hintact hb).unbroken hintact fun l hl hwhite => by
      simpa [hwhite] using hblank l hl
  have htext : branch ((a ++ ks ++ b).flatMap Lexeme.raw)
      = (ks.map Lexeme.unbroken).flatMap Lexeme.raw := by
    rw [List.flatMap_append, List.flatMap_append, flatMap_raw_unbroken hks]
    exact branch_around hfront hback htrimmed
  rw [htext, tokens_ofList, hmade, List.map_map]
  show words ((ks.map Lexeme.unbroken).map Lexeme.token) = _
  rw [words_unbroken, List.map_append, List.map_append]
  exact (words_around (List.forall_mem_map.mpr ha) (List.forall_mem_map.mpr hb)).symm

/-- **SPLITTING**: the branches of a clear selector list are its groups without line
    breaks and trimmed, and a group with firm tokens keeps them, up to white space. -/
theorem split_tokens {selector : String} (h : isClear selector = true) :
    split selector = (groups selector).map (fun g => String.ofList (branch (rawAll g)))
      ∧ ∀ g ∈ groups selector, isFirm (lexemesAll g) = true →
          words (tokens (String.ofList (branch (rawAll g))))
            = words ((lexemesAll g).map Lexeme.token) := by
  have hlexemes : lexemesAll (Css.components selector.toList)
      = Css.lexemes .start selector.toList := Css.lexemesAll_assemble _
  have hcut : IsCut (lexemesAll (Css.components selector.toList)) := by
    rw [hlexemes]
    exact Css.isCut_lexemes _ _
  have htext : rawAll (Css.components selector.toList) = selector.toList := by
    rw [Component.rawAll_eq, hlexemes, Css.flatMap_raw_lexemes]
  have hpieces := pieces_rawAll (List.all_eq_true.mp h) fun l hl => hcut.spelled_of_mem hl
  rw [htext] at hpieces
  refine ⟨?_, fun g hg hfirm => ?_⟩
  · rw [split, branches, hpieces, List.map_map, List.map_map]
    rfl
  · have hintact : ∀ l ∈ lexemesAll g, l.IsIntact := by
      have hunbroken := hfirm
      simp only [isFirm, Bool.and_eq_true, List.all_eq_true] at hunbroken
      exact fun l hl => isIntact_of_isUnbroken (hunbroken.1.1 l hl)
    rw [Component.rawAll_eq]
    exact words_branch (isCut_of_mem_groupsOf hcut hg hintact) hfirm

/-- A comma in a string and one in parentheses, and a line break behind another. -/
def panes : String :=
  ".tab[title=\"a,b\"]:is(.c, .d),\n  .card > .body"

/-- The commas in the string and in the parentheses cut nothing. -/
theorem panes_split :
    isClear panes = true ∧ (∀ g ∈ groups panes, isFirm (lexemesAll g) = true)
      ∧ split panes = [".tab[title=\"a,b\"]:is(.c, .d)", ".card > .body"]
      ∧ (split panes).map (fun piece => words (tokens piece))
          = (groups panes).map fun g => words ((lexemesAll g).map Lexeme.token) := by
  have hclear : isClear panes = true := by decide +kernel
  have hfirm : ∀ g ∈ groups panes, isFirm (lexemesAll g) = true :=
    List.all_eq_true.mp (by decide +kernel)
  obtain ⟨hsplit, hkept⟩ := split_tokens hclear
  refine ⟨hclear, hfirm, by decide +kernel, ?_⟩
  rw [hsplit, List.map_map]
  exact List.map_congr_left fun g hg => hkept g hg (hfirm g hg)

/-- A line break between two classes is gone, and the branch is one run of tokens. -/
theorem split_tokens_fails :
    ¬ ∀ (css : String) (sheet : Stylesheet), Stylesheet.parse css = .ok sheet →
      ∀ rule ∈ sheet.rules, isClear rule.selector = true →
        (∀ t ∈ tokens rule.selector, t.isBlank = true → t.isWhite = true) →
        (split rule.selector).map (fun piece => words (tokens piece))
          = (groups rule.selector).map fun g => words ((lexemesAll g).map Lexeme.token) := by
  intro h
  have hread : (Stylesheet.parse ".a\n.b \x7b\x7d").toOption.any
      (fun sheet => sheet.rules.any fun rule => rule.selector == ".a\n.b") = true := by
    decide +kernel
  obtain ⟨sheet, hsheet, hrule⟩ := (Option.any_eq_true _ _).mp hread
  obtain ⟨rule, hmem, hselector⟩ := List.any_eq_true.mp hrule
  have hsame := h _ sheet (Outcome.toOption_eq_some_iff.mp hsheet) rule hmem
  rw [beq_iff_eq.mp hselector] at hsame
  exact absurd (hsame (by decide +kernel) (by decide +kernel)) (by decide +kernel)

/-- An escaped comma separates as well. -/
example : split ".a\\,b" = [".a\\", "b"] := by decide +kernel

end Selector

end ThemeTokens
