import ThemeTokens.Reference.Parse
import ThemeTokens.Stylesheet.Basic

/-! # Use of tokens

    How often each path is referenced in a stylesheet.  A path referenced once
    can carry its value where it is used; one used more often is declared in a
    shared block. -/

namespace ThemeTokens

/-- The references of a declaration; a fault gets the declaration's place. -/
def Declaration.references (d : Declaration) : Except ThemeError (List Reference) :=
  if mentionsTheme d.value then do
    let value ← located d.location (ParsedValue.parse d.value)
    return value.references
  else return []

/-- How often each path is referenced, in the order of first use. -/
structure VariableUsage where
  counts : Entries Nat

namespace VariableUsage

/-- Nothing used. -/
def empty : VariableUsage := ⟨.empty⟩

/-- How often a path is referenced. -/
def count (usage : VariableUsage) (path : TokenPath) : Nat :=
  (usage.counts.get? path.text).getD 0

/-- Whether a path is referenced. -/
def isUsed (usage : VariableUsage) (path : TokenPath) : Bool :=
  decide (0 < usage.count path)

/-- One more reference. -/
def note (usage : VariableUsage) (r : Reference) : VariableUsage :=
  ⟨usage.counts.insert r.path.text (usage.count r.path + 1)⟩

/-- The paths in the order of first use. -/
def paths (usage : VariableUsage) : List TokenPath :=
  usage.counts.keys.map TokenPath.mk

/-- Counts the references of declarations. -/
def ofDeclarations (usage : VariableUsage) :
    List Declaration → Except ThemeError VariableUsage
  | [] => .ok usage
  | d :: ds => do
      let references ← d.references
      ofDeclarations (references.foldl note usage) ds

/-- Counts the references of every declaration of a stylesheet. -/
def analyze (sheet : Stylesheet) : Except ThemeError VariableUsage :=
  ofDeclarations empty sheet.declarations

end VariableUsage

end ThemeTokens
