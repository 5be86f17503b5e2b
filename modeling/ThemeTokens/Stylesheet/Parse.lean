import ThemeTokens.Css.Component
import ThemeTokens.Error
import ThemeTokens.Stylesheet.Basic
import ThemeTokens.Text.Blank

/-! # Reading stylesheets

    A rule is everything up to a block in curly brackets; an at-rule runs to
    such a block or to a semicolon.  The text before the block is kept as
    written, trimmed.  The first fault in the order of the text is reported. -/

namespace ThemeTokens

open Css (Component Token)

/-- A raw text as it is kept. -/
def keptText (raw : List Char) : String :=
  String.ofList (Text.trim raw)

/-- A fault at a place. -/
def faultAt {α : Type} (here : Location) (fault : StylesheetFault) :
    Except ThemeError α :=
  .error (.parse (some here) fault)

/-! ## Declarations -/

/-- How much of a declaration has been read. -/
inductive OpenDeclaration where
  /-- Nothing yet. -/
  | between
  /-- The property; the place behind it. -/
  | named (property : String) (behind : Location)
  /-- The property, the place behind the colon, and the value so far. -/
  | valued (property : String) (behind : Location) (value : List Char)

/-- The declarations of a block whose content ends at `stop`. -/
def declarationsOf (stop : Location) :
    OpenDeclaration → List Component → Except ThemeError (List Declaration)
  | .between, [] => .ok []
  | .named _ _, [] => faultAt stop .endOfInput
  | .valued property behind value, [] => .ok [⟨property, keptText value, behind⟩]
  | .between, c :: cs =>
      match c with
      | .block opening _ _ => faultAt opening.start (.unexpectedToken opening.token)
      | .token l =>
          match l.token with
          | .ident name => declarationsOf stop (.named name l.stop) cs
          | .atKeyword name => faultAt l.stop (.invalidAtRule name)
          | token =>
              if token.isBlank || token == .semicolon then
                declarationsOf stop .between cs
              else faultAt l.start (.unexpectedToken token)
  | .named property behind, c :: cs =>
      match c with
      | .block opening _ _ => faultAt behind (.unexpectedToken opening.token)
      | .token l =>
          match l.token with
          | .colon => declarationsOf stop (.valued property l.stop []) cs
          | .semicolon => faultAt l.start .endOfInput
          | token =>
              if token.isBlank then declarationsOf stop (.named property behind) cs
              else faultAt behind (.unexpectedToken token)
  | .valued property behind value, c :: cs =>
      if c.isSemicolon then do
        let rest ← declarationsOf stop .between cs
        return ⟨property, keptText value, behind⟩ :: rest
      else declarationsOf stop (.valued property behind (value ++ c.raw)) cs

/-- Where the content of a block ends, in a text that ends at `stop`. -/
def contentEnd (stop : Location) : Component → Location
  | .block _ _ (some closing) => closing.start
  | _ => stop

/-- The components in a block. -/
def contentOf : Component → List Component
  | .block _ content _ => content
  | .token _ => []

/-- The declarations in a block. -/
def declarationsIn (stop : Location) (c : Component) :
    Except ThemeError (List Declaration) :=
  declarationsOf (contentEnd stop c) .between (contentOf c)

/-! ## Rules -/

/-- How much of a rule has been read. -/
inductive OpenRule where
  /-- Nothing yet; whether a rule came before in this list. -/
  | between (first : Bool)
  /-- The leading `@charset` of a list, which is dropped. -/
  | charset
  /-- The name of an at-rule, its place, and its prelude so far. -/
  | atRule (name : String) (start : Location) (prelude : List Char)
  /-- The place of a rule and its selector so far. -/
  | qualified (start : Location) (selector : List Char)

/-- White space, comments and comment delimiters of other languages, which
    separate rules. -/
def separatesRules : Token → Bool
  | .commentOpen => true
  | .commentClose => true
  | token => token.isBlank

/-- Whether this is the at-rule that names an encoding. -/
def isCharset (name : String) : Bool :=
  name.toList.map Char.toLower == "charset".toList

mutual

/-- The rules in a block, in a text that ends at `stop`. -/
def nodesIn (stop : Location) : Component → Except ThemeError (List Node)
  | .token _ => .ok []
  | .block _ content closing =>
      nodesOf stop ((closing.map Css.Lexeme.start).getD stop) (.between true) content

/-- The rules of a list that ends at `here`, in a text that ends at `stop`. -/
def nodesOf (stop here : Location) :
    OpenRule → List Component → Except ThemeError (List Node)
  | .between _, [] => .ok []
  | .charset, [] => .ok []
  | .atRule name start text, [] => .ok [.atStatement ⟨name, keptText text, start⟩]
  | .qualified _ _, [] => faultAt here .endOfInput
  | .between first, c :: cs =>
      if separatesRules c.head then nodesOf stop here (.between first) cs
      else if c.isCurly then do
        let declarations ← declarationsIn stop c
        let rest ← nodesOf stop here (.between false) cs
        return .rule ⟨"", declarations, c.start⟩ :: rest
      else
        match c.head with
        | .atKeyword name =>
            if first && isCharset name then nodesOf stop here .charset cs
            else nodesOf stop here (.atRule name c.start []) cs
        | _ => nodesOf stop here (.qualified c.start c.raw) cs
  | .charset, c :: cs =>
      if c.isSemicolon || c.isCurly then nodesOf stop here (.between false) cs
      else nodesOf stop here .charset cs
  | .atRule name start text, c :: cs =>
      if c.isSemicolon then do
        let rest ← nodesOf stop here (.between false) cs
        return .atStatement ⟨name, keptText text, start⟩ :: rest
      else if c.isCurly then
        if holdsDeclarations name then do
          let declarations ← declarationsIn stop c
          let rest ← nodesOf stop here (.between false) cs
          return .atDeclarations ⟨name, keptText text, start⟩ declarations :: rest
        else do
          let nodes ← nodesIn stop c
          let rest ← nodesOf stop here (.between false) cs
          return .atRules ⟨name, keptText text, start⟩ nodes :: rest
      else nodesOf stop here (.atRule name start (text ++ c.raw)) cs
  | .qualified start selector, c :: cs =>
      if c.isCurly then do
        let declarations ← declarationsIn stop c
        let rest ← nodesOf stop here (.between false) cs
        return .rule ⟨keptText selector, declarations, start⟩ :: rest
      else nodesOf stop here (.qualified start (selector ++ c.raw)) cs

end

/-- Reads a stylesheet. -/
def Stylesheet.parse (css : String) : Except ThemeError Stylesheet := do
  let text := css.toList
  let stop := Location.start.advance text
  return ⟨← nodesOf stop stop (.between true) (Css.components text)⟩

end ThemeTokens
