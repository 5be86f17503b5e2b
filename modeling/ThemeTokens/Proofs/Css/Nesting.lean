import ThemeTokens.Css.Component

/-! # Tokens without places, and blocks

    Where a token stands does not say what it is: a text is cut alike
    wherever it starts (`cut`), and tokens nest alike without their places
    (`assemble_unplaced`).  Components whose blocks are all closed are put together
    from their tokens again, inside any blocks that none of them closes
    (`assemble_closed`). -/

namespace ThemeTokens.Css

/-! ## One token -/

/-- The token that closes the innermost open block. -/
def expected (outer : List OpenBlock) : Option Token :=
  outer.head?.bind fun o => o.opening.token.closer?

/-- A token that opens a block begins one inside the block that was innermost. -/
theorem assemble_opening {outer : List OpenBlock} {here : List Component} {l : Lexeme}
    {ls : List Lexeme} (hopens : l.token.closer?.isSome = true) :
    assemble outer here (l :: ls) = assemble (⟨l, here⟩ :: outer) [] ls := by
  cases outer with
  | nil => exact if_pos hopens
  | cons o outer => exact if_pos hopens

/-- A token that neither opens a block nor closes the innermost one stands for
    itself. -/
theorem assemble_token {outer : List OpenBlock} {here : List Component} {l : Lexeme}
    {ls : List Lexeme} (hopens : l.token.closer? = none) (hcloses : expected outer ≠ some l.token) :
    assemble outer here (l :: ls) = assemble outer (.token l :: here) ls := by
  have hnone : ¬ l.token.closer?.isSome = true := by simp [hopens]
  cases outer with
  | nil => exact if_neg hnone
  | cons o outer => exact (if_neg hnone).trans (if_neg hcloses)

/-- The token that closes the innermost block puts it behind the components in front
    of it. -/
theorem assemble_closing {o : OpenBlock} {outer : List OpenBlock} {here : List Component}
    {l : Lexeme} {ls : List Lexeme} (hopens : l.token.closer? = none)
    (hcloses : expected (o :: outer) = some l.token) :
    assemble (o :: outer) here (l :: ls)
      = assemble outer (.block o.opening here.reverse (some l) :: o.before) ls := by
  have hnone : ¬ l.token.closer?.isSome = true := by simp [hopens]
  exact (if_neg hnone).trans (if_pos hcloses)

/-! ## Without places -/

/-- The token without its places. -/
def Lexeme.unplaced (l : Lexeme) : Lexeme :=
  ⟨l.token, l.raw, .none, .none⟩

mutual

/-- The component without places. -/
def Component.unplaced : Component → Component
  | .token l => .token l.unplaced
  | .block opening content closing =>
      .block opening.unplaced (Component.unplacedAll content) (closing.map Lexeme.unplaced)

/-- The components without places. -/
def Component.unplacedAll : List Component → List Component
  | [] => []
  | c :: cs => c.unplaced :: Component.unplacedAll cs

end

/-- The open block without places. -/
def OpenBlock.unplaced (o : OpenBlock) : OpenBlock :=
  ⟨o.opening.unplaced, Component.unplacedAll o.before⟩

namespace Component

/-- Places are left out of one component after the other. -/
theorem unplacedAll_eq_map (cs : List Component) : unplacedAll cs = cs.map unplaced := by
  induction cs with
  | nil => rfl
  | cons c cs ih => rw [unplacedAll, ih, List.map_cons]

/-- Places are left out alike in reverse order. -/
theorem unplacedAll_reverse (cs : List Component) :
    unplacedAll cs.reverse = (unplacedAll cs).reverse := by
  rw [unplacedAll_eq_map, unplacedAll_eq_map, List.map_reverse]

mutual

/-- Places do not say how a component was written. -/
theorem raw_unplaced (c : Component) : c.unplaced.raw = c.raw := by
  cases c with
  | token l => rfl
  | block opening content closing =>
      have hcontent := rawAll_unplacedAll content
      cases closing with
      | none =>
          show opening.raw ++ rawAll (unplacedAll content) ++ []
            = opening.raw ++ rawAll content ++ []
          rw [hcontent]
      | some l =>
          show opening.raw ++ rawAll (unplacedAll content) ++ l.raw
            = opening.raw ++ rawAll content ++ l.raw
          rw [hcontent]

theorem rawAll_unplacedAll (cs : List Component) : rawAll (unplacedAll cs) = rawAll cs := by
  cases cs with
  | nil => rfl
  | cons c cs => rw [unplacedAll, rawAll, rawAll, raw_unplaced c, rawAll_unplacedAll cs]

end

/-- Places do not say what a component begins with. -/
theorem head_unplaced (c : Component) : c.unplaced.head = c.head := by
  cases c with
  | token l => rfl
  | block opening content closing => rfl

theorem isCurly_unplaced (c : Component) : c.unplaced.isCurly = c.isCurly := by
  cases c with
  | token l => rfl
  | block opening content closing => rfl

theorem isSemicolon_unplaced (c : Component) : c.unplaced.isSemicolon = c.isSemicolon := by
  cases c with
  | token l => rfl
  | block opening content closing => rfl

/-- Without places a component starts nowhere. -/
theorem start_unplaced (c : Component) : c.unplaced.start = .none := by
  cases c with
  | token l => rfl
  | block opening content closing => rfl

end Component

open Component

/-- Blocks that are left open are closed alike without places. -/
theorem closeAll_unplaced (outer : List OpenBlock) (here : List Component) :
    closeAll (outer.map OpenBlock.unplaced) (unplacedAll here)
      = unplacedAll (closeAll outer here) := by
  induction outer generalizing here with
  | nil => rw [List.map_nil, closeAll, closeAll, unplacedAll_reverse]
  | cons o outer ih =>
      rw [List.map_cons, closeAll, closeAll, ← ih, ← unplacedAll_reverse]
      rfl

/-- Places do not say what closes a block. -/
theorem expected_unplaced (outer : List OpenBlock) :
    expected (outer.map OpenBlock.unplaced) = expected outer := by
  cases outer with
  | nil => rfl
  | cons o outer => rfl

/-- **PLACES**: tokens nest by what they are alone. -/
theorem assemble_unplaced (outer : List OpenBlock) (here : List Component) (ls : List Lexeme) :
    assemble (outer.map OpenBlock.unplaced) (unplacedAll here) (ls.map Lexeme.unplaced)
      = unplacedAll (assemble outer here ls) := by
  induction ls generalizing outer here with
  | nil => exact closeAll_unplaced outer here
  | cons l ls ih =>
      rw [List.map_cons]
      -- The token opens a block, closes one or does neither, wherever it stands.
      cases hopens : l.token.closer? with
      | some closer =>
          have hsome : l.token.closer?.isSome = true := by simp [hopens]
          rw [assemble_opening hsome, assemble_opening (l := l.unplaced) hsome]
          exact ih (⟨l, here⟩ :: outer) []
      | none =>
          by_cases hcloses : expected outer = some l.token
          · cases outer with
            | nil => cases hcloses
            | cons o outer =>
                rw [assemble_closing hopens hcloses, ← ih, unplacedAll, unplaced,
                  unplacedAll_reverse]
                exact assemble_closing (l := l.unplaced) hopens hcloses
          · rw [assemble_token hopens hcloses, ← ih]
            exact assemble_token (l := l.unplaced) hopens
              (by rw [expected_unplaced]; exact hcloses)

/-- The tokens of a text. -/
def cut (cs : List Char) : List Lexeme :=
  (lexemes .start cs).map Lexeme.unplaced

/-- A text is cut into the same tokens wherever it starts. -/
theorem map_unplaced_lexemes (here : Location) (cs : List Char) :
    (lexemes here cs).map Lexeme.unplaced = cut cs := by
  rw [cut]
  generalize Location.start = there
  fun_induction lexemes here cs generalizing there with
  | case1 => rw [lexemes]
  | case2 here c cs l stop ih =>
      rw [lexemes, List.map_cons, List.map_cons, ih]
      rfl

theorem cut_nil : cut [] = [] := by
  rw [cut, lexemes]
  rfl

/-- A text is cut behind its first token. -/
theorem cut_cons (c : Char) (cs : List Char) :
    cut (c :: cs) = ⟨(lex c cs).token, (lex c cs).raw, .none, .none⟩ :: cut (lex c cs).rest := by
  rw [cut, lexemes, List.map_cons, map_unplaced_lexemes]
  rfl

/-- The components of a text are put together from its tokens. -/
theorem unplacedAll_components (text : List Char) :
    unplacedAll (components text) = assemble [] [] (cut text) :=
  (assemble_unplaced [] [] (lexemes .start text)).symm

/-- Tokens without places start nowhere. -/
theorem start_of_mem_cut {cs : List Char} {l : Lexeme} (h : l ∈ cut cs) : l.start = .none := by
  obtain ⟨k, -, rfl⟩ := List.mem_map.mp h
  rfl

/-- The tokens of a text put together are the text. -/
theorem flatMap_raw_cut (cs : List Char) : (cut cs).flatMap Lexeme.raw = cs := by
  rw [cut, List.flatMap_map]
  exact flatMap_raw_lexemes .start cs

/-! ## Components taken apart -/

mutual

/-- The tokens of a component, in order. -/
def Component.lexemes : Component → List Lexeme
  | .token l => [l]
  | .block opening content closing =>
      opening :: (Component.lexemesAll content ++ closing.toList)

/-- The tokens of components, in order. -/
def Component.lexemesAll : List Component → List Lexeme
  | [] => []
  | c :: cs => c.lexemes ++ Component.lexemesAll cs

end

/-- A component starts where its first token does. -/
theorem Component.start_eq (c : Component) : ∃ l ∈ c.lexemes, c.start = l.start := by
  cases c with
  | token l => exact ⟨l, List.mem_singleton_self l, rfl⟩
  | block opening content closing => exact ⟨opening, List.mem_cons_self .., rfl⟩

theorem Component.lexemesAll_append (cs ds : List Component) :
    lexemesAll (cs ++ ds) = lexemesAll cs ++ lexemesAll ds := by
  induction cs with
  | nil => rfl
  | cons c cs ih => rw [List.cons_append, lexemesAll, lexemesAll, ih, List.append_assoc]

theorem Component.rawAll_append (cs ds : List Component) :
    rawAll (cs ++ ds) = rawAll cs ++ rawAll ds := by
  induction cs with
  | nil => rfl
  | cons c cs ih => rw [List.cons_append, rawAll, rawAll, ih, List.append_assoc]

theorem Component.rawAll_concat (cs : List Component) (c : Component) :
    rawAll (cs ++ [c]) = rawAll cs ++ c.raw := by
  rw [rawAll_append, rawAll, rawAll, List.append_nil]

mutual

/-- A component is written as its tokens are. -/
theorem Component.raw_eq (c : Component) : c.raw = c.lexemes.flatMap Lexeme.raw := by
  cases c with
  | token l => simp [Component.raw, Component.lexemes]
  | block opening content closing =>
      have hcontent := Component.rawAll_eq content
      cases closing with
      | none => simp [Component.raw, Component.lexemes, hcontent]
      | some l => simp [Component.raw, Component.lexemes, hcontent]

/-- So are components one behind the other. -/
theorem Component.rawAll_eq (cs : List Component) :
    rawAll cs = (lexemesAll cs).flatMap Lexeme.raw := by
  cases cs with
  | nil => rfl
  | cons c cs =>
      rw [rawAll, lexemesAll, List.flatMap_append, Component.raw_eq c, Component.rawAll_eq cs]

end

/-- Components whose blocks are all closed, and none of which is the token
    `closer` that would close the block around them. -/
inductive Closed : Option Token → List Component → Prop where
  | nil {closer : Option Token} : Closed closer []
  | token {closer : Option Token} {l : Lexeme} {cs : List Component} :
      l.token.closer? = none → closer ≠ some l.token → Closed closer cs →
      Closed closer (.token l :: cs)
  | block {closer : Option Token} {opening closing : Lexeme} {content cs : List Component} :
      opening.token.closer? = some closing.token → Closed (some closing.token) content →
      Closed closer cs → Closed closer (.block opening content (some closing) :: cs)

namespace Closed

variable {closer : Option Token} {cs ds : List Component}

/-- Closed components behind closed ones are closed. -/
theorem append (hcs : Closed closer cs) (hds : Closed closer ds) : Closed closer (cs ++ ds) := by
  induction hcs with
  | nil => exact hds
  | token hopens hcloses _ ih => exact .token hopens hcloses (ih hds)
  | block hclosing hcontent _ _ ih => exact .block hclosing hcontent (ih hds)

/-- Outside all blocks there is nothing to close. -/
theorem outside (h : Closed closer cs) : Closed none cs := by
  induction h with
  | nil => exact .nil
  | token hopens _ _ ih => exact .token hopens nofun ih
  | block hclosing hcontent _ _ ih => exact .block hclosing hcontent ih

end Closed

/-- What closes a block opens none. -/
theorem closer?_closer {opening closing : Token} (h : opening.closer? = some closing) :
    closing.closer? = none := by
  cases opening <;> cases h <;> rfl

/-- **NESTING**: components whose blocks are closed are put together again from
    their tokens, in any block that they do not close. -/
theorem assemble_closed {closer : Option Token} {cs : List Component} (h : Closed closer cs)
    {outer : List OpenBlock} (houter : expected outer = closer) (here : List Component)
    (ls : List Lexeme) :
    assemble outer here (lexemesAll cs ++ ls) = assemble outer (cs.reverse ++ here) ls := by
  induction h generalizing outer here ls with
  | nil => rfl
  | token hopens hcloses _ ih =>
      rw [lexemesAll, Component.lexemes, List.append_assoc, List.singleton_append,
        assemble_token hopens (houter ▸ hcloses), ih houter, List.reverse_cons,
        List.append_assoc, List.singleton_append]
  | @block closer opening closing content cs hclosing _ _ ihcontent ih =>
      -- Inside the block its own end is expected, and behind it `closer` again.
      have hopens : opening.token.closer?.isSome = true := by
        rw [hclosing]
        rfl
      rw [lexemesAll, Component.lexemes, List.append_assoc, List.cons_append, List.append_assoc,
        assemble_opening hopens,
        ihcontent (show expected (⟨opening, here⟩ :: outer) = some closing.token from hclosing),
        List.append_nil, Option.toList_some, List.singleton_append,
        assemble_closing (o := ⟨opening, here⟩) (closer?_closer hclosing) hclosing,
        List.reverse_reverse, ih houter, List.reverse_cons, List.append_assoc,
        List.singleton_append]

/-- Closed components are the components of their tokens. -/
theorem assemble_lexemesAll {closer : Option Token} {cs : List Component}
    (h : Closed closer cs) : assemble [] [] (lexemesAll cs) = cs := by
  have hcs := assemble_closed h.outside (show expected [] = none from rfl) [] []
  rwa [List.append_nil, List.append_nil, assemble, closeAll, List.reverse_reverse] at hcs

end ThemeTokens.Css
