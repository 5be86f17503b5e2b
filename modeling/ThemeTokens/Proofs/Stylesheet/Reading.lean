import ThemeTokens.Proofs.Outcome
import ThemeTokens.Stylesheet.Parse

/-! # Reading, one component at a time

    What each component does to a declaration, or to a rule, that has been read
    up to it.  A component of a list of rules goes on what is open or completes a
    node (`nodesOf_cons_eq_ok`). -/

namespace ThemeTokens

open Css (Component Lexeme Token)

/-- A block in curly brackets begins with one. -/
theorem head_of_isCurly {c : Component} (h : c.isCurly = true) : c.head = .openCurly := by
  cases c with
  | token l => cases h
  | block opening content closing => exact beq_iff_eq.mp h

theorem head_of_isSemicolon {c : Component} (h : c.isSemicolon = true) : c.head = .semicolon := by
  cases c with
  | token l => exact beq_iff_eq.mp h
  | block opening content closing => cases h

section Declarations

variable {stop behind : Location} {property name : String} {value : List Char} {l : Lexeme}
  {c : Component} {cs : List Component}

/-- A token between declarations. -/
theorem declarationsOf_between :
    declarationsOf stop .between (.token l :: cs)
      = match l.token with
        | .ident name => declarationsOf stop (.named name l.stop) cs
        | .atKeyword name => faultAt l.stop (.invalidAtRule name)
        | token =>
            if token.isBlank || token == .semicolon then declarationsOf stop .between cs
            else faultAt l.start (.unexpectedToken token) := rfl

theorem declarationsOf_ident (h : l.token = .ident name) :
    declarationsOf stop .between (.token l :: cs)
      = declarationsOf stop (.named name l.stop) cs := by
  rw [declarationsOf_between, h]

/-- No at-rule stands between declarations. -/
theorem declarationsOf_atKeyword (h : l.token = .atKeyword name) :
    declarationsOf stop .between (.token l :: cs) = faultAt l.stop (.invalidAtRule name) := by
  rw [declarationsOf_between, h]

/-- White space, comments and semicolons between declarations are passed over. -/
theorem declarationsOf_skip (h : (l.token.isBlank || l.token == .semicolon) = true) :
    declarationsOf stop .between (.token l :: cs) = declarationsOf stop .between cs := by
  rw [declarationsOf_between]
  split
  · rename_i hident
    rw [hident] at h
    cases h
  · rename_i hat
    rw [hat] at h
    cases h
  · exact if_pos h

/-- Any other token is a fault, and at its own place. -/
theorem declarationsOf_unexpected (hident : ∀ name, l.token = .ident name → False)
    (hat : ∀ name, l.token = .atKeyword name → False)
    (h : ¬ (l.token.isBlank || l.token == .semicolon) = true) :
    declarationsOf stop .between (.token l :: cs)
      = faultAt l.start (.unexpectedToken l.token) := by
  rw [declarationsOf_between]
  split
  · exact (hident _ ‹_›).elim
  · exact (hat _ ‹_›).elim
  · exact if_neg h

/-- A token behind the name of a declaration. -/
theorem declarationsOf_named :
    declarationsOf stop (.named property behind) (.token l :: cs)
      = match l.token with
        | .colon => declarationsOf stop (.valued property l.stop []) cs
        | .semicolon => faultAt l.start .endOfInput
        | token =>
            if token.isBlank then declarationsOf stop (.named property behind) cs
            else faultAt behind (.unexpectedToken token) := rfl

/-- A colon behind the name begins the value. -/
theorem declarationsOf_colon (h : l.token = .colon) :
    declarationsOf stop (.named property behind) (.token l :: cs)
      = declarationsOf stop (.valued property l.stop []) cs := by
  rw [declarationsOf_named, h]

/-- A semicolon in the place of the colon ends the declaration too early. -/
theorem declarationsOf_ended (h : l.token = .semicolon) :
    declarationsOf stop (.named property behind) (.token l :: cs)
      = faultAt l.start .endOfInput := by
  rw [declarationsOf_named, h]

/-- White space and comments in front of the colon are passed over. -/
theorem declarationsOf_blank (h : l.token.isBlank = true) :
    declarationsOf stop (.named property behind) (.token l :: cs)
      = declarationsOf stop (.named property behind) cs := by
  rw [declarationsOf_named]
  split
  · rename_i hcolon
    rw [hcolon] at h
    cases h
  · rename_i hsemicolon
    rw [hsemicolon] at h
    cases h
  · exact if_pos h

/-- Any other token in the place of the colon is a fault, but at the end of the
    name. -/
theorem declarationsOf_uncoloned (hcolon : l.token = .colon → False)
    (hsemicolon : l.token = .semicolon → False) (h : ¬ l.token.isBlank = true) :
    declarationsOf stop (.named property behind) (.token l :: cs)
      = faultAt behind (.unexpectedToken l.token) := by
  rw [declarationsOf_named]
  split
  · exact (hcolon ‹_›).elim
  · exact (hsemicolon ‹_›).elim
  · exact if_neg h

/-- A semicolon completes the declaration in front of those read behind it. -/
theorem declarationsOf_semicolon (h : c.isSemicolon = true) :
    declarationsOf stop (.valued property behind value) (c :: cs)
      = (do
          let rest ← declarationsOf stop .between cs
          return ⟨property, keptText value, behind⟩ :: rest) :=
  if_pos h

/-- Any component but a semicolon belongs to the value. -/
theorem declarationsOf_value (h : ¬ c.isSemicolon = true) :
    declarationsOf stop (.valued property behind value) (c :: cs)
      = declarationsOf stop (.valued property behind (value ++ c.raw)) cs :=
  if_neg h

end Declarations

section Nodes

variable {stop here start : Location} {name : String} {text : List Char} {first : Bool}
  {c : Component} {cs : List Component}

/-- What separates rules is passed over. -/
theorem nodesOf_separator (h : separatesRules c.head = true) :
    nodesOf stop here (.between first) (c :: cs) = nodesOf stop here (.between first) cs :=
  if_pos h

/-- A block with nothing in front of it is a rule without a selector. -/
theorem nodesOf_block (hsep : ¬ separatesRules c.head = true) (h : c.isCurly = true) :
    nodesOf stop here (.between first) (c :: cs)
      = (do
          let declarations ← declarationsIn stop c
          let rest ← nodesOf stop here (.between false) cs
          return .rule ⟨"", declarations, c.start⟩ :: rest) :=
  (if_neg hsep).trans (if_pos h)

/-- An at-keyword begins an at-rule, unless it names the encoding and comes
    first. -/
theorem nodesOf_atKeyword (h : c.head = .atKeyword name) :
    nodesOf stop here (.between first) (c :: cs)
      = if first && isCharset name then nodesOf stop here .charset cs
        else nodesOf stop here (.atRule name c.start []) cs := by
  have hcurly : ¬ c.isCurly = true := by
    intro hcurly
    rw [head_of_isCurly hcurly] at h
    cases h
  have hsep : ¬ separatesRules c.head = true := by
    rw [h]
    exact nofun
  refine (if_neg hsep).trans ((if_neg hcurly).trans ?_)
  rw [h]

/-- Any other component begins a selector. -/
theorem nodesOf_qualified (hsep : ¬ separatesRules c.head = true) (hcurly : ¬ c.isCurly = true)
    (h : ∀ name, c.head = .atKeyword name → False) :
    nodesOf stop here (.between first) (c :: cs)
      = nodesOf stop here (.qualified c.start c.raw) cs := by
  refine (if_neg hsep).trans ((if_neg hcurly).trans ?_)
  split
  · exact (h _ ‹_›).elim
  · rfl

/-- What names the encoding is dropped up to its semicolon or its block. -/
theorem nodesOf_charset :
    nodesOf stop here .charset (c :: cs)
      = if c.isSemicolon || c.isCurly then nodesOf stop here (.between false) cs
        else nodesOf stop here .charset cs := rfl

/-- A semicolon completes an at-rule that has no block. -/
theorem nodesOf_statement (h : c.isSemicolon = true) :
    nodesOf stop here (.atRule name start text) (c :: cs)
      = (do
          let rest ← nodesOf stop here (.between false) cs
          return .atStatement ⟨name, keptText text, start⟩ :: rest) :=
  if_pos h

/-- A block is not a semicolon. -/
theorem not_isSemicolon_of_isCurly (h : c.isCurly = true) : ¬ c.isSemicolon = true := by
  cases c with
  | token l => cases h
  | block opening content closing => exact nofun

/-- A block completes an at-rule, with declarations if its name says so. -/
theorem nodesOf_atDeclarations (h : c.isCurly = true) (hholds : holdsDeclarations name = true) :
    nodesOf stop here (.atRule name start text) (c :: cs)
      = (do
          let declarations ← declarationsIn stop c
          let rest ← nodesOf stop here (.between false) cs
          return .atDeclarations ⟨name, keptText text, start⟩ declarations :: rest) :=
  (if_neg (not_isSemicolon_of_isCurly h)).trans ((if_pos h).trans (if_pos hholds))

/-- If its name does not say so, the block holds rules. -/
theorem nodesOf_atRules (h : c.isCurly = true) (hholds : ¬ holdsDeclarations name = true) :
    nodesOf stop here (.atRule name start text) (c :: cs)
      = (do
          let nodes ← nodesIn stop c
          let rest ← nodesOf stop here (.between false) cs
          return .atRules ⟨name, keptText text, start⟩ nodes :: rest) :=
  (if_neg (not_isSemicolon_of_isCurly h)).trans ((if_pos h).trans (if_neg hholds))

theorem nodesOf_prelude (hsemicolon : ¬ c.isSemicolon = true) (hcurly : ¬ c.isCurly = true) :
    nodesOf stop here (.atRule name start text) (c :: cs)
      = nodesOf stop here (.atRule name start (text ++ c.raw)) cs :=
  (if_neg hsemicolon).trans (if_neg hcurly)

theorem nodesOf_rule (h : c.isCurly = true) :
    nodesOf stop here (.qualified start text) (c :: cs)
      = (do
          let declarations ← declarationsIn stop c
          let rest ← nodesOf stop here (.between false) cs
          return .rule ⟨keptText text, declarations, start⟩ :: rest) :=
  if_pos h

theorem nodesOf_selector (h : ¬ c.isCurly = true) :
    nodesOf stop here (.qualified start text) (c :: cs)
      = nodesOf stop here (.qualified start (text ++ c.raw)) cs :=
  if_neg h

/-- A component that completes no node, and what is open behind it. -/
inductive OpenRule.Goes (c : Component) : OpenRule → OpenRule → Prop where
  | separator {first : Bool} :
      separatesRules c.head = true → Goes c (.between first) (.between first)
  | charset {first : Bool} {name : String} :
      c.head = .atKeyword name → (first && isCharset name) = true →
      Goes c (.between first) .charset
  | atKeyword {first : Bool} {name : String} :
      c.head = .atKeyword name → ¬ (first && isCharset name) = true →
      Goes c (.between first) (.atRule name c.start [])
  | qualified {first : Bool} :
      ¬ separatesRules c.head = true → ¬ c.isCurly = true →
      (∀ name, c.head ≠ .atKeyword name) →
      Goes c (.between first) (.qualified c.start c.raw)
  | dropped : ¬ (c.isSemicolon || c.isCurly) = true → Goes c .charset .charset
  | charsetEnd : (c.isSemicolon || c.isCurly) = true → Goes c .charset (.between false)
  | prelude {name : String} {start : Location} {text : List Char} :
      ¬ c.isSemicolon = true → ¬ c.isCurly = true →
      Goes c (.atRule name start text) (.atRule name start (text ++ c.raw))
  | selector {start : Location} {text : List Char} :
      ¬ c.isCurly = true → Goes c (.qualified start text) (.qualified start (text ++ c.raw))

/-- A component that completes a node of what is open. -/
inductive OpenRule.Completes (stop : Location) (c : Component) : OpenRule → Node → Prop where
  | block {first : Bool} {ds : List Declaration} :
      c.isCurly = true → declarationsIn stop c = .ok ds →
      Completes stop c (.between first) (.rule ⟨"", ds, c.start⟩)
  | statement {name : String} {start : Location} {text : List Char} :
      c.isSemicolon = true →
      Completes stop c (.atRule name start text) (.atStatement ⟨name, keptText text, start⟩)
  | atDeclarations {name : String} {start : Location} {text : List Char}
      {ds : List Declaration} :
      c.isCurly = true → holdsDeclarations name = true → declarationsIn stop c = .ok ds →
      Completes stop c (.atRule name start text)
        (.atDeclarations ⟨name, keptText text, start⟩ ds)
  | atRules {name : String} {start : Location} {text : List Char} {nodes : List Node} :
      c.isCurly = true → ¬ holdsDeclarations name = true → nodesIn stop c = .ok nodes →
      Completes stop c (.atRule name start text) (.atRules ⟨name, keptText text, start⟩ nodes)
  | rule {start : Location} {text : List Char} {ds : List Declaration} :
      c.isCurly = true → declarationsIn stop c = .ok ds →
      Completes stop c (.qualified start text) (.rule ⟨keptText text, ds, start⟩)

/-- **ONE STEP**: whatever the component, it goes on what is open, or completes one
    node in front of those that are read behind it. -/
theorem nodesOf_cons_eq_ok {state : OpenRule} {nodes : List Node}
    (h : nodesOf stop here state (c :: cs) = .ok nodes) :
    (∃ next, state.Goes c next ∧ nodesOf stop here next cs = .ok nodes)
      ∨ ∃ n rest, state.Completes stop c n
        ∧ nodesOf stop here (.between false) cs = .ok rest ∧ n :: rest = nodes := by
  cases state with
  | between first =>
      -- The questions are those of the reading, in the same order.
      by_cases hsep : separatesRules c.head = true
      · rw [nodesOf_separator hsep] at h
        exact Or.inl ⟨_, .separator hsep, h⟩
      by_cases hcurly : c.isCurly = true
      · rw [nodesOf_block hsep hcurly] at h
        obtain ⟨ds, hds, h⟩ := Outcome.bind_eq_ok.mp h
        obtain ⟨rest, hrest, hall⟩ := Outcome.bind_cons_eq_ok.mp h
        exact Or.inr ⟨_, rest, .block hcurly hds, hrest, hall⟩
      by_cases hat : ∃ name, c.head = .atKeyword name
      · obtain ⟨name, hname⟩ := hat
        rw [nodesOf_atKeyword hname] at h
        split at h
        · exact Or.inl ⟨_, .charset hname ‹_›, h⟩
        · exact Or.inl ⟨_, .atKeyword hname ‹_›, h⟩
      · have hnot : ∀ name, c.head ≠ .atKeyword name := fun name hname => hat ⟨name, hname⟩
        rw [nodesOf_qualified hsep hcurly hnot] at h
        exact Or.inl ⟨_, .qualified hsep hcurly hnot, h⟩
  | charset =>
      rw [nodesOf_charset] at h
      split at h
      · exact Or.inl ⟨_, .charsetEnd ‹_›, h⟩
      · exact Or.inl ⟨_, .dropped ‹_›, h⟩
  | atRule name start text =>
      by_cases hsemicolon : c.isSemicolon = true
      · rw [nodesOf_statement hsemicolon] at h
        obtain ⟨rest, hrest, hall⟩ := Outcome.bind_cons_eq_ok.mp h
        exact Or.inr ⟨_, rest, .statement hsemicolon, hrest, hall⟩
      by_cases hcurly : c.isCurly = true
      · by_cases hholds : holdsDeclarations name = true
        · rw [nodesOf_atDeclarations hcurly hholds] at h
          obtain ⟨ds, hds, h⟩ := Outcome.bind_eq_ok.mp h
          obtain ⟨rest, hrest, hall⟩ := Outcome.bind_cons_eq_ok.mp h
          exact Or.inr ⟨_, rest, .atDeclarations hcurly hholds hds, hrest, hall⟩
        · rw [nodesOf_atRules hcurly hholds] at h
          obtain ⟨inner, hinner, h⟩ := Outcome.bind_eq_ok.mp h
          obtain ⟨rest, hrest, hall⟩ := Outcome.bind_cons_eq_ok.mp h
          exact Or.inr ⟨_, rest, .atRules hcurly hholds hinner, hrest, hall⟩
      · rw [nodesOf_prelude hsemicolon hcurly] at h
        exact Or.inl ⟨_, .prelude hsemicolon hcurly, h⟩
  | qualified start text =>
      by_cases hcurly : c.isCurly = true
      · rw [nodesOf_rule hcurly] at h
        obtain ⟨ds, hds, h⟩ := Outcome.bind_eq_ok.mp h
        obtain ⟨rest, hrest, hall⟩ := Outcome.bind_cons_eq_ok.mp h
        exact Or.inr ⟨_, rest, .rule hcurly hds, hrest, hall⟩
      · rw [nodesOf_selector hcurly] at h
        exact Or.inl ⟨_, .selector hcurly, h⟩

end Nodes

end ThemeTokens
