import ThemeTokens.Proofs.Css.Continuation
import ThemeTokens.Proofs.Css.Nesting

/-! # What components are made of

    The components of a text have all its tokens, in order
    (`lexemesAll_assemble`), and only the last block of a list can be left open
    (`sound_assemble`).  So there is one way to put tokens together
    (`Sound.eq_assemble`). -/

namespace ThemeTokens.Css

open Component

/-! ## Blocks that are left open -/

/-- Components of which only the last block may be left open, and none of which
    is the token that would close the block around them. -/
inductive Sound : Option Token → List Component → Prop where
  | nil {closer : Option Token} : Sound closer []
  | token {closer : Option Token} {l : Lexeme} {cs : List Component} :
      l.token.closer? = none → closer ≠ some l.token → Sound closer cs →
      Sound closer (.token l :: cs)
  | block {closer : Option Token} {opening closing : Lexeme} {content cs : List Component} :
      opening.token.closer? = some closing.token → Closed (some closing.token) content →
      Sound closer cs → Sound closer (.block opening content (some closing) :: cs)
  | left {closer : Option Token} {opening : Lexeme} {content : List Component} :
      opening.token.closer?.isSome = true → Sound opening.token.closer? content →
      Sound closer [.block opening content none]

/-- Behind closed components the last block may be left open. -/
theorem Closed.sound_append {closer : Option Token} {cs : List Component} (h : Closed closer cs)
    {ds : List Component} (hds : Sound closer ds) : Sound closer (cs ++ ds) := by
  induction h with
  | nil => exact hds
  | token hopens hcloses _ ih => exact .token hopens hcloses (ih hds)
  | block hclosing hcontent _ _ ih => exact .block hclosing hcontent (ih hds)

theorem Closed.sound {closer : Option Token} {cs : List Component} (h : Closed closer cs) :
    Sound closer cs := by
  rw [← List.append_nil cs]
  exact h.sound_append .nil

namespace Sound

variable {closer : Option Token} {c : Component} {cs ds : List Component}

/-- Outside all blocks there is nothing to close. -/
theorem outside (h : Sound closer cs) : Sound none cs := by
  induction h with
  | nil => exact .nil
  | token hopens _ _ ih => exact .token hopens nofun ih
  | block hclosing hcontent _ ih => exact .block hclosing hcontent ih
  | left hopens hcontent _ => exact .left hopens hcontent

theorem tail (h : Sound closer (c :: cs)) : Sound closer cs := by
  cases h with
  | token _ _ h => exact h
  | block _ _ h => exact h
  | left => exact .nil

theorem right (h : Sound closer (cs ++ ds)) : Sound closer ds := by
  induction cs with
  | nil => exact h
  | cons c cs ih => exact ih h.tail

/-- What comes before something else is closed. -/
theorem closed_of_cons (h : Sound closer (c :: cs)) (hne : cs ≠ []) : Closed closer [c] := by
  cases h with
  | token hopens hcloses _ => exact .token hopens hcloses .nil
  | block hclosing hcontent _ => exact .block hclosing hcontent .nil
  | left => exact absurd rfl hne

/-- All in front of a component is closed. -/
theorem closed_of_append (h : Sound closer (cs ++ c :: ds)) : Closed closer cs := by
  induction cs with
  | nil => exact .nil
  | cons d cs ih =>
      rw [List.cons_append] at h
      exact (h.closed_of_cons (by simp)).append (ih h.tail)

/-- What comes first in sound components is sound: closed if anything is left out,
    and all of them if not. -/
theorem left_of_append (h : Sound closer (cs ++ ds)) : Sound closer cs := by
  cases ds with
  | nil => rwa [List.append_nil] at h
  | cons d ds => exact h.closed_of_append.sound

end Sound

/-! ## What is put together -/

/-- Open blocks that can be closed, with closed components before each. -/
def Opened : List OpenBlock → Prop
  | [] => True
  | o :: outer =>
      o.opening.token.closer?.isSome = true ∧ Closed (expected outer) o.before.reverse
        ∧ Opened outer

/-- At the end of the text every open block is left open as the last component of
    the one around it. -/
theorem sound_closeAll {outer : List OpenBlock} (h : Opened outer) {here : List Component}
    (hhere : Sound (expected outer) here.reverse) : Sound none (closeAll outer here) := by
  induction outer generalizing here with
  | nil => exact hhere
  | cons o outer ih =>
      obtain ⟨hopens, hbefore, houter⟩ := h
      refine ih houter ?_
      rw [List.reverse_cons]
      exact hbefore.sound_append (.left hopens hhere)

/-- As long as all in front of each open block is closed, only the last block of a
    list can be left open in the end. -/
theorem sound_assemble_of_opened {outer : List OpenBlock} (h : Opened outer)
    {here : List Component} (hhere : Closed (expected outer) here.reverse) (ls : List Lexeme) :
    Sound none (assemble outer here ls) := by
  -- All in front of every open block stays closed, and so do the components in the
  -- innermost one.
  induction ls generalizing outer here with
  | nil =>
      exact sound_closeAll h hhere.sound
  | cons l ls ih =>
      cases hopens : l.token.closer? with
      | some closer =>
          have hsome : l.token.closer?.isSome = true := by simp [hopens]
          rw [assemble_opening hsome]
          exact ih (show Opened (⟨l, here⟩ :: outer) from ⟨hsome, hhere, h⟩) .nil
      | none =>
          by_cases hcloses : expected outer = some l.token
          · cases outer with
            | nil => cases hcloses
            | cons o outer =>
                obtain ⟨-, hbefore, houter⟩ := h
                rw [assemble_closing hopens hcloses]
                refine ih houter ?_
                rw [List.reverse_cons]
                rw [hcloses] at hhere
                exact hbefore.append (.block hcloses hhere .nil)
          · rw [assemble_token hopens hcloses]
            refine ih h ?_
            rw [List.reverse_cons]
            exact hhere.append (.token hopens hcloses .nil)

/-- **BLOCKS**: only the last block of a list can be left open. -/
theorem sound_assemble (ls : List Lexeme) : Sound none (assemble [] [] ls) :=
  sound_assemble_of_opened (show Opened [] from trivial) .nil ls

/-- The tokens that have been read. -/
def word (outer : List OpenBlock) (here : List Component) : List Lexeme :=
  (outer.reverse.flatMap fun o => lexemesAll o.before.reverse ++ [o.opening])
    ++ lexemesAll here.reverse

/-- What has been read in an open block stands behind the token that opens it. -/
theorem word_cons (o : OpenBlock) (outer : List OpenBlock) (here : List Component) :
    word (o :: outer) here = word outer o.before ++ o.opening :: lexemesAll here.reverse := by
  simp [word, List.flatMap_append]

theorem word_here (outer : List OpenBlock) (c : Component) (here : List Component) :
    word outer (c :: here) = word outer here ++ c.lexemes := by
  simp [word, lexemesAll_append, lexemesAll]

/-- No token is lost when the open blocks are closed at the end of the text. -/
theorem lexemesAll_closeAll (outer : List OpenBlock) (here : List Component) :
    lexemesAll (closeAll outer here) = word outer here := by
  induction outer generalizing here with
  | nil => rfl
  | cons o outer ih =>
      rw [closeAll, ih, word_here, word_cons, Component.lexemes]
      simp

/-- The components have the tokens that had been read, and behind them those that
    had not. -/
theorem lexemesAll_assemble_of (outer : List OpenBlock) (here : List Component)
    (ls : List Lexeme) : lexemesAll (assemble outer here ls) = word outer here ++ ls := by
  induction ls generalizing outer here with
  | nil => rw [List.append_nil]; exact lexemesAll_closeAll outer here
  | cons l ls ih =>
      cases hopens : l.token.closer? with
      | some closer =>
          rw [assemble_opening (by simp [hopens]), ih, word_cons]
          simp [lexemesAll]
      | none =>
          by_cases hcloses : expected outer = some l.token
          · cases outer with
            | nil => cases hcloses
            | cons o outer =>
                rw [assemble_closing hopens hcloses, ih, word_here, word_cons, Component.lexemes]
                simp
          · rw [assemble_token hopens hcloses, ih, word_here, Component.lexemes]
            simp

/-- **LOSSLESS**: the components have all tokens, in order. -/
theorem lexemesAll_assemble (ls : List Lexeme) : lexemesAll (assemble [] [] ls) = ls :=
  lexemesAll_assemble_of [] [] ls

/-- Sound components are put together again from their tokens, and then the text
    ends. -/
theorem assemble_sound {closer : Option Token} {cs : List Component} (h : Sound closer cs)
    {outer : List OpenBlock} (houter : expected outer = closer) (here : List Component) :
    assemble outer here (lexemesAll cs) = closeAll outer (cs.reverse ++ here) := by
  induction h generalizing outer here with
  | nil => rfl
  | token hopens hcloses _ ih =>
      rw [lexemesAll, Component.lexemes, List.singleton_append,
        assemble_token hopens (houter ▸ hcloses), ih houter, List.reverse_cons,
        List.append_assoc, List.singleton_append]
  | @block closer opening closing content cs hclosing hcontent _ ih =>
      have hblock : Closed closer [.block opening content (some closing)] :=
        .block hclosing hcontent .nil
      have hfirst := assemble_closed hblock houter here (lexemesAll cs)
      rw [lexemesAll, lexemesAll, List.append_nil] at hfirst
      rw [lexemesAll, hfirst, ih houter, List.reverse_singleton, List.reverse_cons,
        List.append_assoc]
  | @left closer opening content hopens _ ih =>
      -- The text ends inside the block.
      have hinside := ih (show expected (⟨opening, here⟩ :: outer) = _ from rfl) []
      rw [lexemesAll, lexemesAll, List.append_nil, Component.lexemes, Option.toList_none,
        List.append_nil, assemble_opening hopens, hinside, List.append_nil, closeAll,
        List.reverse_reverse]
      rfl

/-- **ONE WAY**: sound components are what their tokens are put together to. -/
theorem Sound.eq_assemble {closer : Option Token} {cs : List Component} (h : Sound closer cs) :
    assemble [] [] (lexemesAll cs) = cs := by
  rw [assemble_sound h.outside rfl, closeAll, List.append_nil, List.reverse_reverse]

end ThemeTokens.Css
