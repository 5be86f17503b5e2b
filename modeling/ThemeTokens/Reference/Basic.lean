import ThemeTokens.Error
import ThemeTokens.Token.Basic

/-! # References and parsed values

    A value is split once into literal texts and references to tokens.
    Substitution walks these segments from left to right, so each reference is
    replaced exactly once and what replaces it is not looked at again. -/

namespace ThemeTokens

/-- How a reference is spelled. -/
inductive ReferenceForm where
  /-- `@theme path`, or `@theme $path`. -/
  | atRule
  /-- `theme('path')`, in either quote. -/
  | function
  deriving DecidableEq, Inhabited, Repr

/-- A reference to a token. -/
structure Reference where
  path : TokenPath
  form : ReferenceForm
  /-- The path has a dollar sign in front. -/
  dollar : Bool
  deriving DecidableEq, Inhabited, Repr

/-- A part of a value. -/
inductive Segment where
  | literal (text : String)
  | reference (reference : Reference)
  deriving DecidableEq, Inhabited, Repr

/-- The reference in a segment, if it is one. -/
def Segment.reference? : Segment → Option Reference
  | .reference r => some r
  | .literal _ => none

/-- A value split into literal texts and references. -/
structure ParsedValue where
  segments : List Segment
  deriving DecidableEq, Inhabited, Repr

namespace ParsedValue

/-- The references, in order. -/
def references (value : ParsedValue) : List Reference :=
  value.segments.filterMap Segment.reference?

/-- How many references there are. -/
def referenceCount (value : ParsedValue) : Nat :=
  value.references.length

/-- Whether there is a reference. -/
def hasReferences (value : ParsedValue) : Bool :=
  !value.references.isEmpty

end ParsedValue

end ThemeTokens
