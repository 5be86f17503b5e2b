import ThemeTokens.Reference.Parse

/-! # Substituting references

    Each reference of a value is replaced by the text found for it.  A
    reference without one drops the whole declaration, and the references
    behind it are not asked for.  The text put together must not hold or open
    a reference again. -/

namespace ThemeTokens

/-- The outcome of a substitution. -/
inductive Substituted where
  /-- Every reference had a text. -/
  | text (value : String)
  /-- The first reference without a text. -/
  | dropped (missing : Reference)
  deriving DecidableEq, Inhabited, Repr

/-- A text put in front of an outcome. -/
def Substituted.prepend (text : String) : Substituted → Substituted
  | .text value => .text (text ++ value)
  | .dropped missing => .dropped missing

/-- Whether a text holds a reference or the beginning of one. -/
def hasLeftover (text : String) : Bool :=
  mentionsTheme text
    && match ParsedValue.parse text with
      | .ok value => value.hasReferences
      | .error _ => true

/-- Replaces the references of segments, asking `resolve` for each in turn. -/
def fill {m : Type → Type} [Monad m] (resolve : Reference → m (Option String)) :
    List Segment → m Substituted
  | [] => return .text ""
  | .literal text :: rest => return (← fill resolve rest).prepend text
  | .reference r :: rest => do
      match ← resolve r with
      | some text => return (← fill resolve rest).prepend text
      | none => return .dropped r

/-- The outcome stands unless its text holds a reference again. -/
def Substituted.check : Substituted → Except ThemeError Substituted
  | .text value =>
      if hasLeftover value then
        .error (.malformedReference .invalidUsage value none)
      else .ok (.text value)
  | .dropped missing => .ok (.dropped missing)

/-- Replaces the references of a value. -/
def ParsedValue.substitute {m : Type → Type} [Monad m] [MonadExcept ThemeError m]
    (resolve : Reference → m (Option String)) (value : ParsedValue) :
    m Substituted := do
  match (← fill resolve value.segments).check with
  | .ok outcome => return outcome
  | .error e => throw e

end ThemeTokens
