import ThemeTokens.Css.Lexer

/-! # Blocks

    Tokens nest: a bracket or function opens a block that runs to its closing
    bracket or to the end of the text.  A closing bracket that does not match
    the innermost open block is an ordinary token. -/

namespace ThemeTokens.Css

/-- A token outside blocks, or a block. -/
inductive Component where
  | token (lexeme : Lexeme)
  | block (opening : Lexeme) (content : List Component) (closing : Option Lexeme)

mutual

/-- How a component was written. -/
def Component.raw : Component → List Char
  | .token lexeme => lexeme.raw
  | .block opening content closing =>
      opening.raw ++ Component.rawAll content
        ++ match closing with
          | some lexeme => lexeme.raw
          | none => []

/-- How components were written. -/
def Component.rawAll : List Component → List Char
  | [] => []
  | c :: cs => c.raw ++ Component.rawAll cs

end

namespace Component

/-- Where the component starts. -/
def start : Component → Location
  | .token lexeme => lexeme.start
  | .block opening _ _ => opening.start

/-- The first token. -/
def head : Component → Token
  | .token lexeme => lexeme.token
  | .block opening _ _ => opening.token

/-- Whether this is a block in curly brackets. -/
def isCurly : Component → Bool
  | .token _ => false
  | .block opening _ _ => opening.token == .openCurly

/-- Whether this is a semicolon. -/
def isSemicolon : Component → Bool
  | .token lexeme => lexeme.token == .semicolon
  | .block _ _ _ => false

end Component

/-- An open block: its opening token and the components before it, last
    first. -/
structure OpenBlock where
  opening : Lexeme
  before : List Component

/-- Closes every open block at the end of the text. -/
def closeAll : List OpenBlock → List Component → List Component
  | [], here => here.reverse
  | o :: outer, here =>
      closeAll outer (.block o.opening here.reverse none :: o.before)

/-- Puts tokens into blocks, given the open blocks, innermost first, and the
    components read in the innermost one, last first. -/
def assemble : List OpenBlock → List Component → List Lexeme → List Component
  | outer, here, [] => closeAll outer here
  | outer, here, l :: ls =>
      if l.token.closer?.isSome then assemble (⟨l, here⟩ :: outer) [] ls
      else
        match outer with
        | [] => assemble [] (.token l :: here) ls
        | o :: rest =>
            if o.opening.token.closer? = some l.token then
              assemble rest (.block o.opening here.reverse (some l) :: o.before) ls
            else assemble outer (.token l :: here) ls

/-- The components of a text. -/
def components (text : List Char) : List Component :=
  assemble [] [] (lexemes .start text)

end ThemeTokens.Css
