import ThemeTokens.Digest.Encoding
import ThemeTokens.Digest.Md5
import ThemeTokens.Path
import ThemeTokens.Text.Digit
import ThemeTokens.Text.Quoted

/-! # Scoped names of custom properties

    Custom properties can be renamed for each stylesheet, so that tokens of
    different stylesheets do not collide.  A template is filled in, made into
    an identifier, and only then given the local name; the template `default`
    stands for the file, the local name and a digest of the stylesheet. -/

namespace ThemeTokens

/-- How custom properties are named. -/
inductive ScopedName where
  /-- A text with placeholders, or `default`. -/
  | template (text : String)
  /-- A name from the local name, the path and the stylesheet. -/
  | function (name : String → String → String → String)

namespace ScopedName

/-- A number without sign, as placeholders give it; a plus is allowed. -/
def count? (digits : List Char) : Option Nat :=
  let plain := match digits with
    | '+' :: rest => rest
    | _ => digits
  (Text.natural? 10 plain).filter (· < Nat.pow 2 64)

/-- A digest of the local name: hexadecimal or Base64, whole or cut. -/
def expandHash (placeholder localName : List Char) : Option (List Char) :=
  match Text.splitAt ':' placeholder with
  | head :: arguments =>
      if head ≠ "hash".toList then none
      else
        let digest := Digest.md5Text (String.ofList localName)
        let encoded (kind : List Char) : Option (List Char) :=
          if kind = "hex".toList then some (Digest.hexText digest)
          else if kind = "base64".toList then some (Digest.base64Text digest)
          else none
        match arguments with
        | [] => encoded "hex".toList
        | [size] => do
            let n ← count? size
            return (← encoded "hex".toList).take n
        | kind :: size :: _ => do
            let n ← count? size
            return (← encoded kind).take n
  | [] => none

/-- What a placeholder stands for; none if it stands for itself. -/
def expand (path : Option String) (localName placeholder : List Char) :
    Option (List Char) :=
  let part (f : String → Option String) (otherwise : String) : List Char :=
    ((path.bind f).getD otherwise).toList
  if placeholder = "name".toList then some (part Path.stem? "file")
  else if placeholder = "ext".toList then some (part Path.extension? "bin")
  else if placeholder = "folder".toList then
    some (part (fun p => (Path.parent? p).bind Path.fileName?) "")
  else if placeholder = "path".toList then
    some (part (fun p => (Path.parent? p).map (· ++ "/")) "")
  else expandHash placeholder localName

/-- The text of a placeholder, and the template behind it. -/
def placeholder? : List Char → Option (List Char × List Char)
  | [] => none
  | c :: cs =>
      if c = ']' then some ([], cs)
      else (placeholder? cs).map fun (inside, rest) => (c :: inside, rest)

/-- The brackets of a placeholder are read. -/
theorem length_placeholder? {cs inside rest : List Char}
    (h : placeholder? cs = some (inside, rest)) : rest.length < cs.length := by
  induction cs generalizing inside with
  | nil => simp [placeholder?] at h
  | cons c cs ih =>
      unfold placeholder? at h
      split at h
      · simp only [Option.some.injEq, Prod.mk.injEq] at h
        simp [← h.2]
      · simp only [Option.map_eq_some_iff, Prod.exists, Prod.mk.injEq] at h
        obtain ⟨i, r, hc, _, rfl⟩ := h
        have := ih hc
        simp only [List.length_cons]
        omega

/-- A template with its placeholders replaced; a bracket that is not closed
    ends the replacing. -/
def interpolate (expand : List Char → Option (List Char)) : List Char → List Char
  | [] => []
  | c :: cs =>
      if c = '[' then
        match _h : placeholder? cs with
        | none => c :: cs
        | some (inside, rest) =>
            (match expand inside with
              | some text => text
              | none => '[' :: inside ++ [']']) ++ interpolate expand rest
      else c :: interpolate expand cs
termination_by cs => cs.length
decreasing_by
  · have := length_placeholder? _h
    simp only [List.length_cons]
    omega
  · simp

/-- Whether a name needs something in front to be an identifier. -/
def needsLead : List Char → Bool
  | '-' :: c :: _ => c == '-' || c.isDigit
  | c :: _ => c.isDigit
  | [] => false

/-- Characters that file names do not hold, controls and the dot. -/
def isReserved (c : Char) : Bool :=
  "<>:\"/\\|?*.".toList.contains c || c.toNat < 0x20
    || (0x7F ≤ c.toNat && c.toNat ≤ 0x9F)

/-- Reserved characters become dashes, leading dots one dash, and what would
    not begin an identifier gets an underscore in front. -/
def sanitize (cs : List Char) : List Char :=
  let body := cs.dropWhile (· == '.')
  (if needsLead cs then ['_'] else [])
    ++ (if cs.head? = some '.' then ['-'] else [])
    ++ body.map fun c => if isReserved c then '-' else c

/-- A code point in upper case hexadecimal. -/
def upperHex (n : Nat) : List Char :=
  (Text.hexadecimal n).map Char.toUpper

/-- Backslashes and single quotes are escaped, and all that is not ASCII. -/
def escapeChar (c : Char) : List Char :=
  if c = '\\' ∨ c = '\'' then ['\\', c]
  else if 0x7E < c.toNat then '\\' :: upperHex c.toNat ++ [' ']
  else [c]

/-- What follows `[local]` in any letter case. -/
def afterLocal? : List Char → Option (List Char)
  | l :: o :: c :: a :: k :: b :: e :: rest =>
      if [l, o, c, a, k, b, e].map Char.toLower = "[local]".toList then some rest
      else none
  | _ => none

/-- The place of a local name is read. -/
theorem length_afterLocal? {cs rest : List Char} (h : afterLocal? cs = some rest) :
    rest.length < cs.length := by
  unfold afterLocal? at h
  split at h
  · split at h
    · simp only [Option.some.injEq] at h
      subst h
      simp only [List.length_cons]
      omega
    · simp at h
  · simp at h

/-- Every `[local]` replaced by the local name. -/
def replaceLocal (localName : List Char) (cs : List Char) : List Char :=
  match cs with
  | [] => []
  | c :: tail =>
      match _h : afterLocal? (c :: tail) with
      | some rest => localName ++ replaceLocal localName rest
      | none => c :: replaceLocal localName tail
termination_by cs.length
decreasing_by
  · exact length_afterLocal? _h
  · simp

/-- A template filled in for a local name and made into an identifier. -/
def fillTemplate (template localName : List Char) (path : Option String) :
    List Char :=
  replaceLocal localName
    ((sanitize (interpolate (expand path localName) template)).flatMap escapeChar)

/-- The text of a template filled in for a local name. -/
def identifier (template localName : String) (path : Option String) : String :=
  String.ofList (fillTemplate template.toList localName.toList path)

end ScopedName

/-- What names custom properties in one stylesheet. -/
structure Localizer where
  naming : Option ScopedName
  path : Option String
  css : String

namespace Localizer

/-- The name of the custom property for a local name. -/
def localize (localizer : Localizer) (name : String) : String :=
  match localizer.naming with
  | none => name
  | some (.template text) =>
      if text = "default" then
        let file := (localizer.path.bind Path.stem?).getD "default"
        let digest := (Digest.hexText (Digest.md5Text localizer.css)).take 6
        file ++ "-" ++ name ++ "-" ++ String.ofList digest
      else ScopedName.identifier text name localizer.path
  | some (.function f) => f name (localizer.path.getD "") localizer.css

end Localizer

end ThemeTokens
