/-! # Locations

    A place in a stylesheet is a line and a column, both counted from one.
    Columns count UTF-16 code units, so a character outside the basic plane is
    two columns wide.  Generated rules have no place and use `Location.none`. -/

namespace ThemeTokens

/-- A line and a column. -/
structure Location where
  line : Nat
  column : Nat
  deriving DecidableEq, Inhabited, Repr

namespace Location

/-- The place of what no text was read for. -/
def none : Location := ⟨0, 0⟩

/-- The first place of a text. -/
def start : Location := ⟨1, 1⟩

/-- How many columns a character takes. -/
def width (c : Char) : Nat :=
  if c.toNat < 0x10000 then 1 else 2

/-- The place after some text.  Line feed, form feed and carriage return each
    end a line; a carriage return and line feed end one together. -/
def advance (here : Location) : List Char → Location
  | [] => here
  | '\r' :: '\n' :: rest => advance ⟨here.line + 1, 1⟩ rest
  | c :: rest =>
      if c = '\n' ∨ c = '\r' ∨ c = '\x0c' then advance ⟨here.line + 1, 1⟩ rest
      else advance ⟨here.line, here.column + width c⟩ rest

/-- A location as messages show it. -/
def text (here : Location) : String :=
  toString here.line ++ ":" ++ toString here.column

end Location

end ThemeTokens
