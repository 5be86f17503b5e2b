import ThemeTokens.Proofs.Css.Identifier
import ThemeTokens.ScopedName

/-! # When a scoped name is an identifier

    Of a template that is filled in, whatever file names do not hold becomes a
    dash, and quotes and all that is not ASCII are escaped; the other
    characters stay as they are, so they have to be name characters
    (`localize_isIdentifier_iff`).  The template `default` takes the name of
    the file as it is. -/

namespace ThemeTokens

namespace ScopedName

open Css

/-! ## Filling in the local name -/

/-- A letter in lower case is itself, or was in upper case. -/
theorem toLower_cases (c : Char) :
    c.toLower = c ∨ 65 ≤ c.toNat ∧ c.toNat ≤ 90 ∧ c.toLower.toNat = c.toNat + 32 := by
  rw [Char.toLower]
  split
  · rename_i h
    obtain ⟨hlow, hhigh⟩ := h
    have hsmall : c.val.toNat ≤ 90 := hhigh
    refine .inr ⟨hlow, hhigh, ?_⟩
    show (c.val + 32).toNat = c.val.toNat + 32
    rw [UInt32.toNat_add]
    show (c.val.toNat + 32) % 4294967296 = c.val.toNat + 32
    omega
  · exact .inl rfl

/-- The characters of `[local]` in any letter case. -/
def localChars : List Char :=
  ['[', 'l', 'L', 'o', 'O', 'c', 'C', 'a', 'A', ']']

/-- What lower case makes a character of `[local]` is one in some letter case. -/
theorem mem_localChars {c : Char} (h : c.toLower ∈ "[local]".toList) : c ∈ localChars := by
  -- In upper case a letter stands 32 places before the lower case one.
  have hlower : ("[local]".toList.all fun d => localChars.contains d
      && (localChars.contains (Char.ofNat (d.toNat - 32)) || d.toNat - 32 < 65)) = true := by
    decide
  have hc := List.all_eq_true.mp hlower _ h
  rw [Bool.and_eq_true, Bool.or_eq_true, List.contains_iff_mem, List.contains_iff_mem,
    decide_eq_true_eq] at hc
  rcases toLower_cases c with hsame | ⟨hlow, -, hplace⟩
  · rw [hsame] at hc
    exact hc.1
  · have hchar : Char.ofNat (c.toLower.toNat - 32) = c := by
      rw [hplace, Nat.add_sub_cancel, Char.ofNat_toNat]
    rw [hchar] at hc
    rcases hc.2 with hmem | hsmall
    · exact hmem
    · omega

/-- A place of the local name is in front where lower case makes `[local]` of what
    stands there. -/
theorem afterLocal?_eq_some_iff {cs rest : List Char} :
    afterLocal? cs = some rest ↔
      ∃ u, cs = u ++ rest ∧ u.map Char.toLower = "[local]".toList := by
  constructor
  · intro h
    unfold afterLocal? at h
    split at h
    · rename_i l o c a k b e rest'
      split at h
      · rename_i hlocal
        obtain rfl := Option.some.inj h
        exact ⟨[l, o, c, a, k, b, e], rfl, hlocal⟩
      · cases h
    · cases h
  · rintro ⟨u, rfl, hlocal⟩
    have hlen : u.length = 7 := by
      rw [← List.length_map Char.toLower, hlocal]
      rfl
    match u, hlen with
    | [l, o, c, a, k, b, e], _ => exact if_pos hlocal

theorem mem_localChars_of_mem {u : List Char} (h : u.map Char.toLower = "[local]".toList) :
    ∀ c ∈ u, c ∈ localChars := by
  intro c hc
  refine mem_localChars ?_
  rw [← h]
  exact List.mem_map_of_mem hc

/-- Only a bracket begins a place of the local name. -/
theorem afterLocal?_of_ne {c : Char} (h : c ≠ '[') (cs : List Char) :
    afterLocal? (c :: cs) = none := by
  rw [Option.eq_none_iff_forall_ne_some]
  intro rest hsome
  obtain ⟨u, hu, hlocal⟩ := afterLocal?_eq_some_iff.mp hsome
  obtain ⟨d, v, rfl, hd, -⟩ := List.map_eq_cons_iff.mp hlocal
  obtain rfl := (List.cons.inj hu).1
  have hmem : c ∈ localChars := mem_localChars (hd ▸ List.mem_cons_self)
  have hopen : c.toLower = '[' := hd
  have hall : (localChars.all fun d => d == '[' || d.toLower != '[') = true := by decide
  have hc := List.all_eq_true.mp hall c hmem
  rw [hopen] at hc
  simp [h] at hc

/-- In its place the local name is filled in, and the text goes on behind it. -/
theorem replaceLocal_of_local {n cs rest : List Char} (h : afterLocal? cs = some rest) :
    replaceLocal n cs = n ++ replaceLocal n rest := by
  cases cs with
  | nil => cases h
  | cons c cs =>
      rw [replaceLocal]
      split
      · rename_i rest' heq
        rw [heq] at h
        rw [Option.some.inj h]
      · rename_i heq
        rw [heq] at h
        cases h

/-- Every other character stays. -/
theorem replaceLocal_of_not_local {n : List Char} {c : Char} {cs : List Char}
    (h : afterLocal? (c :: cs) = none) : replaceLocal n (c :: cs) = c :: replaceLocal n cs := by
  rw [replaceLocal]
  split
  · rename_i rest heq
    rw [heq] at h
    cases h
  · rfl

/-- No local name is filled in where no bracket opens. -/
theorem replaceLocal_append {u : List Char} (hu : '[' ∉ u) (n w : List Char) :
    replaceLocal n (u ++ w) = u ++ replaceLocal n w := by
  induction u with
  | nil => rfl
  | cons c u ih =>
      obtain ⟨hc, hu⟩ := not_or.mp (mt List.mem_cons.mpr hu)
      rw [List.cons_append, replaceLocal_of_not_local (afterLocal?_of_ne (Ne.symm hc) _), ih hu,
        List.cons_append]

/-! ## The template around it -/

/-- A way to write characters that keeps those of `[local]`, and does not write
    any for others. -/
structure KeepsLocal (write : Char → List Char) : Prop where
  kept : ∀ c ∈ localChars, write c = [c]
  other : ∀ c, c ∉ localChars → ∃ d x, write c = d :: x ∧ d ∉ localChars ∧ '[' ∉ d :: x

/-- A text as its characters and the places of the local name. -/
def places (cs : List Char) : List (Option Char) :=
  match cs with
  | [] => []
  | c :: tail =>
      match _h : afterLocal? (c :: tail) with
      | some rest => none :: places rest
      | none => some c :: places tail
termination_by cs.length
decreasing_by
  · exact length_afterLocal? _h
  · simp

namespace KeepsLocal

variable {write : Char → List Char} (hw : KeepsLocal write)

include hw

/-- A text of such characters is written as it is. -/
theorem flatMap_eq {v : List Char} (hv : ∀ c ∈ v, c ∈ localChars) : v.flatMap write = v := by
  induction v with
  | nil => rfl
  | cons c v ih =>
      obtain ⟨hc, hv⟩ := List.forall_mem_cons.mp hv
      rw [List.flatMap_cons, hw.kept c hc, ih hv]
      rfl

/-- What is written in front with characters of `[local]` stands there. -/
theorem exists_append {v rest cs : List Char} (hv : ∀ c ∈ v, c ∈ localChars)
    (h : cs.flatMap write = v ++ rest) : ∃ r, cs = v ++ r ∧ rest = r.flatMap write := by
  induction v generalizing cs with
  | nil => exact ⟨cs, rfl, h.symm⟩
  | cons d v ih =>
      obtain ⟨hd, htail⟩ := List.forall_mem_cons.mp hv
      cases cs with
      | nil => cases h
      | cons c cs =>
          rw [List.flatMap_cons] at h
          by_cases hc : c ∈ localChars
          · rw [hw.kept c hc] at h
            obtain ⟨rfl, hbehind⟩ := List.cons.inj h
            obtain ⟨r, rfl, hrest⟩ := ih htail hbehind
            exact ⟨r, rfl, hrest⟩
          · obtain ⟨e, x, hwrite, he, -⟩ := hw.other c hc
            rw [hwrite] at h
            obtain ⟨rfl, -⟩ := List.cons.inj h
            exact absurd hd he

/-- The local name is filled in where it was asked for. -/
theorem afterLocal?_flatMap (cs : List Char) :
    afterLocal? (cs.flatMap write) = (afterLocal? cs).map (List.flatMap write) := by
  ext rest
  rw [afterLocal?_eq_some_iff, Option.map_eq_some_iff]
  constructor
  · rintro ⟨u, hu, hlocal⟩
    obtain ⟨r, hr, hrest⟩ := hw.exists_append (mem_localChars_of_mem hlocal) hu
    exact ⟨r, afterLocal?_eq_some_iff.mpr ⟨u, hr, hlocal⟩, hrest.symm⟩
  · rintro ⟨r, hr, rfl⟩
    obtain ⟨u, rfl, hlocal⟩ := afterLocal?_eq_some_iff.mp hr
    refine ⟨u, ?_, hlocal⟩
    rw [List.flatMap_append, hw.flatMap_eq (mem_localChars_of_mem hlocal)]

/-- To write a text and then fill in the local name is to fill it in and write the
    characters around it. -/
theorem replaceLocal_flatMap (n cs : List Char) :
    replaceLocal n (cs.flatMap write) = (places cs).flatMap (Option.elim · n write) := by
  fun_induction places cs with
  | case1 => rw [List.flatMap_nil, replaceLocal]; rfl
  | case2 c tail rest hlocal ih =>
      have hwritten := hw.afterLocal?_flatMap (c :: tail)
      rw [hlocal] at hwritten
      rw [replaceLocal_of_local hwritten, ih]
      rfl
  | case3 c tail hnone ih =>
      have hwritten := hw.afterLocal?_flatMap (c :: tail)
      rw [hnone] at hwritten
      rw [List.flatMap_cons] at hwritten ⊢
      rw [List.flatMap_cons, ← ih]
      by_cases hc : c ∈ localChars
      · rw [hw.kept c hc] at hwritten
        show replaceLocal n (write c ++ _) = write c ++ _
        rw [hw.kept c hc]
        exact replaceLocal_of_not_local hwritten
      · obtain ⟨d, x, hwrite, -, hopen⟩ := hw.other c hc
        show replaceLocal n (write c ++ _) = write c ++ _
        rw [hwrite]
        exact replaceLocal_append hopen n _

end KeepsLocal

theorem KeepsLocal.pure : KeepsLocal fun c => [c] where
  kept c _ := rfl
  other c hc := ⟨c, [], rfl, hc, by
    rw [List.mem_singleton]
    rintro rfl
    exact hc (by decide)⟩

/-- How a character of the template is written in the identifier. -/
def written (c : Char) : List Char :=
  escapeChar (if isReserved c then '-' else c)

/-- A reserved character becomes a dash. -/
theorem written_of_reserved {c : Char} (h : isReserved c = true) : written c = ['-'] := by
  rw [written, if_pos h]
  rfl

theorem ne_backslash {c : Char} (h : isReserved c = false) : c ≠ '\\' := by
  rintro rfl
  cases h

/-- What comes behind the printable ASCII characters and is not reserved is escaped
    by its code. -/
theorem written_of_high {c : Char} (h : isReserved c = false) (hhigh : 0x7E < c.toNat) :
    written c = '\\' :: upperHex c.toNat ++ [' '] := by
  have hquote : ¬ (c = '\\' ∨ c = '\'') := by
    rintro (rfl | rfl)
    · cases h
    · exact absurd hhigh (by decide)
  rw [written, if_neg (by rw [h]; exact Bool.false_ne_true), escapeChar, if_neg hquote,
    if_pos hhigh]

/-- The single quote apart, a printable ASCII character that is not reserved is
    written as it is. -/
theorem written_of_plain {c : Char} (h : isReserved c = false) (hquote : c ≠ '\'')
    (hlow : c.toNat ≤ 0x7E) : written c = [c] := by
  have hescaped : ¬ (c = '\\' ∨ c = '\'') := by
    rintro (rfl | rfl)
    · cases h
    · exact hquote rfl
  rw [written, if_neg (by rw [h]; exact Bool.false_ne_true), escapeChar, if_neg hescaped,
    if_neg (Nat.not_lt.mpr hlow)]

theorem mem_toDigits {n : Nat} : ∀ c ∈ Nat.toDigits 16 n, isHexDigit c.toUpper = true := by
  have hdigit : ∀ d < 16, isHexDigit (Nat.digitChar d).toUpper = true := by decide
  induction n using Nat.strongRecOn with
  | ind n ih =>
      intro c hc
      rw [Nat.toDigits_eq_if (by decide)] at hc
      split at hc
      · rename_i hlt
        rw [List.mem_singleton.mp hc]
        exact hdigit n hlt
      · rename_i hge
        rcases List.mem_append.mp hc with hc | hc
        · exact ih (n / 16) (by omega) c hc
        · rw [List.mem_singleton.mp hc]
          exact hdigit _ (Nat.mod_lt n (by decide))

/-- A code is written in hexadecimal digits. -/
theorem mem_upperHex {n : Nat} : ∀ c ∈ upperHex n, isHexDigit c = true := by
  intro c hc
  obtain ⟨d, hd, rfl⟩ := List.mem_map.mp hc
  exact mem_toDigits d hd

/-- Six digits are enough for every character. -/
theorem length_upperHex (c : Char) : (upperHex c.toNat).length ≤ 6 := by
  have hvalid : c.toNat < 0xD800 ∨ 0xDFFF < c.toNat ∧ c.toNat < 0x110000 := c.valid
  rw [upperHex, List.length_map, Text.hexadecimal,
    Nat.length_toDigits_le_iff (by decide) (by decide)]
  omega

/-- The characters of `[local]` are written as they are, and no others give them. -/
theorem keepsLocal_written : KeepsLocal written where
  kept c hc := by
    have hall : (localChars.all fun c => written c == [c]) = true := by decide
    exact eq_of_beq (List.all_eq_true.mp hall c hc)
  other c hc := by
    by_cases hreserved : isReserved c = true
    · exact ⟨'-', [], written_of_reserved hreserved, by decide, by decide⟩
    rw [Bool.not_eq_true] at hreserved
    by_cases hhigh : 0x7E < c.toNat
    · refine ⟨'\\', upperHex c.toNat ++ [' '], written_of_high hreserved hhigh, by decide, ?_⟩
      intro hmem
      simp at hmem
      exact absurd (mem_upperHex _ hmem) (by decide)
    by_cases hquote : c = '\''
    · subst hquote
      exact ⟨'\\', ['\''], rfl, by decide, by decide⟩
    · refine ⟨c, [], written_of_plain hreserved hquote (Nat.not_lt.mp hhigh), hc, ?_⟩
      rw [List.mem_singleton]
      rintro rfl
      exact hc (by decide)

/-! ## Reading what was written -/

/-- What a template may leave behind: a character of a name, or one that is
    replaced or escaped. -/
def isSound (c : Char) : Bool :=
  isNameChar c || isReserved c || c == '\''

/-- A sound character belongs to the name that follows; any other ends it. -/
theorem rest_name_written (c : Char) (w : List Char) :
    (isSound c = true ∧ (name (written c ++ w)).rest = (name w).rest)
    ∨ isSound c = false ∧ (name (written c ++ w)).rest ≠ [] := by
  by_cases hreserved : isReserved c = true
  · refine .inl ⟨by rw [isSound, hreserved, Bool.or_true, Bool.true_or], ?_⟩
    rw [written_of_reserved hreserved]
    exact rest_name_plain (List.forall_mem_singleton.mpr rfl) w
  rw [Bool.not_eq_true] at hreserved
  by_cases hhigh : 0x7E < c.toNat
  · -- The one character in between is reserved.
    have hascii : 0x80 ≤ c.toNat := by
      by_contra hlow
      have hdelete : c.toNat = 0x7F := by omega
      simp [isReserved, hdelete] at hreserved
    refine .inl ⟨by simp [isSound, isNameChar, hascii], ?_⟩
    rw [written_of_high hreserved hhigh, List.append_assoc]
    exact rest_name_code (by simp [upperHex, Text.hexadecimal]) mem_upperHex (length_upperHex c) w
  by_cases hquote : c = '\''
  · subst hquote
    exact .inl ⟨rfl, rest_name_escaped rfl rfl w⟩
  rw [written_of_plain hreserved hquote (Nat.not_lt.mp hhigh)]
  by_cases hname : isNameChar c = true
  · exact .inl ⟨by rw [isSound, hname]; rfl, rest_name_plain (by simpa using hname) w⟩
  · rw [Bool.not_eq_true] at hname
    have hbreaks : breaksName c = true := by
      have hnul : c ≠ '\x00' := by
        rintro rfl
        cases hreserved
      simp [breaksName, hname, hnul, ne_backslash hreserved]
    refine .inr ⟨by simp [isSound, hname, hreserved, hquote], ?_⟩
    rw [List.singleton_append, name_of_breaks hbreaks]
    exact List.cons_ne_nil c w

/-- What is filled in reads as a name where all that the template leaves does. -/
theorem rest_name_places {n : List Char} (hn : ∀ c ∈ n, isNameChar c = true)
    (ps : List (Option Char)) :
    (name (ps.flatMap (Option.elim · n written))).rest = []
      ↔ ∀ c ∈ ps.flatMap (Option.elim · [] fun c => [c]), isSound c = true := by
  induction ps with
  | nil => exact iff_of_true (congrArg Piece.rest name_nil) (List.forall_mem_nil _)
  | cons p ps ih =>
      rw [List.flatMap_cons, List.flatMap_cons, List.forall_mem_append, ← ih]
      cases p with
      | none =>
          rw [Option.elim_none, Option.elim_none, rest_name_plain hn]
          exact (and_iff_right (List.forall_mem_nil _)).symm
      | some c =>
          rw [Option.elim_some, Option.elim_some, List.forall_mem_singleton]
          rcases rest_name_written c (ps.flatMap (Option.elim · n written)) with
            ⟨hsound, hread⟩ | ⟨hsound, hread⟩
          · rw [hread, hsound]
            exact (and_iff_right rfl).symm
          · rw [hsound]
            exact iff_of_false hread fun h => Bool.false_ne_true h.1

/-- What is put in front of a name. -/
def lead (cs : List Char) : List Char :=
  (if needsLead cs then ['_'] else []) ++ if cs.head? = some '.' then ['-'] else []

/-- In front of a name only an underscore and a dash are put. -/
theorem lead_plain (cs : List Char) : ∀ c ∈ lead cs, c = '_' ∨ c = '-' := by
  intro c hc
  rcases List.mem_append.mp hc with hc | hc
  · split at hc
    · exact .inl (List.mem_singleton.mp hc)
    · cases hc
  · split at hc
    · exact .inr (List.mem_singleton.mp hc)
    · cases hc

theorem flatMap_escapeChar_lead (cs : List Char) : (lead cs).flatMap escapeChar = lead cs := by
  have hplain : ∀ u : List Char, (∀ c ∈ u, c = '_' ∨ c = '-') → u.flatMap escapeChar = u := by
    intro u hu
    induction u with
    | nil => rfl
    | cons c u ih =>
        obtain ⟨hc, hu⟩ := List.forall_mem_cons.mp hu
        rw [List.flatMap_cons, ih hu]
        rcases hc with rfl | rfl
        · rfl
        · rfl
  exact hplain _ (lead_plain cs)

/-- A template is made safe and escaped one character after the other, behind its
    lead. -/
theorem flatMap_escapeChar_sanitize (cs : List Char) :
    (sanitize cs).flatMap escapeChar
      = lead cs ++ (cs.dropWhile (· == '.')).flatMap written := by
  show (lead cs ++ (cs.dropWhile (· == '.')).map fun c => if isReserved c then '-' else c).flatMap
    escapeChar = _
  rw [List.flatMap_append, flatMap_escapeChar_lead, List.flatMap_map]
  rfl

/-- What is in front of a template has no place for the local name. -/
theorem lead_not_mem (cs : List Char) : '[' ∉ lead cs := by
  intro hmem
  rcases lead_plain cs _ hmem with h | h
  · cases h
  · cases h

/-- A template filled in is its lead and then its characters as they are written,
    with the local name in its places. -/
theorem fillTemplate_eq (template n : List Char) (path : Option String) :
    fillTemplate template n path
      = lead (interpolate (expand path n) template)
        ++ (places ((interpolate (expand path n) template).dropWhile (· == '.'))).flatMap
          (Option.elim · n written) := by
  rw [fillTemplate, flatMap_escapeChar_sanitize, replaceLocal_append (lead_not_mem _),
    keepsLocal_written.replaceLocal_flatMap]

/-- A template filled in reads as a name to its end exactly where all that it
    leaves besides the local name is sound. -/
theorem rest_name_fillTemplate {n : List Char} (hn : ∀ c ∈ n, isNameChar c = true)
    (template : List Char) (path : Option String) :
    (name (fillTemplate template n path)).rest = []
      ↔ ∀ c ∈ replaceLocal [] (interpolate (expand path n) template), isSound c = true := by
  rw [fillTemplate_eq]
  generalize interpolate (expand path n) template = cs
  have hleadName : ∀ c ∈ lead cs, isNameChar c = true := by
    intro c hc
    rcases lead_plain cs c hc with rfl | rfl
    · rfl
    · rfl
  -- Dots in front are dropped, and they are sound.
  have hdots : ∀ c ∈ cs.takeWhile (· == '.'), c = '.' := fun c hc =>
    eq_of_beq (List.mem_takeWhile_imp (p := (· == '.')) hc)
  have hopen : '[' ∉ cs.takeWhile (· == '.') := fun hmem => absurd (hdots _ hmem) (by decide)
  have hcs : replaceLocal [] cs
      = cs.takeWhile (· == '.') ++ replaceLocal [] (cs.dropWhile (· == '.')) := by
    conv => lhs; rw [← List.takeWhile_append_dropWhile (p := (· == '.')) (l := cs)]
    exact replaceLocal_append hopen [] _
  have hpure := KeepsLocal.pure.replaceLocal_flatMap [] (cs.dropWhile (· == '.'))
  rw [List.flatMap_singleton'] at hpure
  rw [rest_name_plain hleadName, rest_name_places hn, hcs, List.forall_mem_append, hpure]
  refine (and_iff_right fun c hc => ?_).symm
  rw [hdots c hc]
  rfl

end ScopedName

/-! ## Names of the file, the local name and a digest -/

namespace Digest

/-- A digest in hexadecimal belongs to a name. -/
theorem isNameChar_hexText (bytes : List UInt8) :
    ∀ c ∈ hexText bytes, Css.isNameChar c = true := by
  have hdigit : ∀ n < 16, Css.isNameChar (hexDigit n) = true := by decide
  intro c hc
  obtain ⟨b, -, hb⟩ := List.mem_flatMap.mp hc
  have hbyte : b.toNat < 256 := b.toNat_lt
  simp only [List.mem_cons, List.not_mem_nil, or_false] at hb
  rcases hb with rfl | rfl
  · exact hdigit _ (by omega)
  · exact hdigit _ (by omega)

end Digest

namespace Localizer

open Css ScopedName

/-- The name of the file of a stylesheet, without its extension. -/
def file (localizer : Localizer) : String :=
  (localizer.path.bind Path.stem?).getD "default"

/-- By default a name is that of the file, the local one and a digest, with dashes
    between them. -/
theorem localize_default {localizer : Localizer}
    (h : localizer.naming = some (.template "default")) (name : String) :
    ∃ digest, (∀ c ∈ digest, isNameChar c = true) ∧
      (localizer.localize name).toList
        = localizer.file.toList ++ '-' :: (name.toList ++ '-' :: digest) := by
  refine ⟨(Digest.hexText (Digest.md5Text localizer.css)).take 6, fun c hc =>
    Digest.isNameChar_hexText _ c (List.mem_of_mem_take hc), ?_⟩
  rw [localize, h]
  simp [file]

/-- Any other template is filled in as it is. -/
theorem localize_template {localizer : Localizer} {template : String}
    (h : localizer.naming = some (.template template)) (hdefault : template ≠ "default")
    (name : String) :
    (localizer.localize name).toList = fillTemplate template.toList name.toList localizer.path := by
  rw [localize, h]
  dsimp only
  rw [if_neg hdefault, identifier, String.toList_ofList]

/-- **SCOPED NAMES**: behind two dashes the name of a custom property is an
    identifier exactly where, besides the local name, the template leaves
    nothing but name characters and what is replaced or escaped; for the template
    `default`, exactly where the name of the file reads as a name to its end. -/
theorem localize_isIdentifier_iff {localizer : Localizer} {template : String}
    (h : localizer.naming = some (.template template)) {name : String}
    (hname : ∀ c ∈ name.toList, isNameChar c = true) :
    (template = "default" →
      (IsIdentifier ("--" ++ localizer.localize name)
        ↔ (Css.name (localizer.file.toList ++ ['-'])).rest = [])) ∧
    (template ≠ "default" →
      (IsIdentifier ("--" ++ localizer.localize name)
        ↔ ∀ c ∈ replaceLocal [] (interpolate (expand localizer.path name.toList) template.toList),
            isSound c = true)) := by
  rw [isIdentifier_dashes]
  refine ⟨?_, fun hdefault => ?_⟩
  · rintro rfl
    obtain ⟨digest, hdigest, htext⟩ := localize_default h name
    rw [htext]
    refine rest_name_dash ?_ _
    exact List.forall_mem_append.mpr ⟨hname, List.forall_mem_cons.mpr ⟨rfl, hdigest⟩⟩
  · rw [localize_template h hdefault]
    exact rest_name_fillTemplate hname _ _

theorem localize_isIdentifier_button :
    IsIdentifier ("--" ++ localize
      ⟨some (.template ".[folder]/[name]:[local]"), some "ui/größe.css", ""⟩ "ink") :=
  ((localize_isIdentifier_iff rfl (List.all_eq_true.mp rfl)).2 (by decide)).mpr
    (List.all_eq_true.mp (by decide +kernel))

/-- A plus sign of the template is not escaped. -/
theorem localize_isIdentifier_fails :
    ¬ ∀ (template : String) (path : Option String) (css name : String),
      (∀ c ∈ name.toList, c.isAlphanum = true ∨ c = '_' ∨ c = '-') →
      IsIdentifier ("--" ++ localize ⟨some (.template template), path, css⟩ name) := by
  intro h
  have hplus := h "[local]+x" none "" "c" (List.forall_mem_singleton.mpr (.inl rfl))
  have hname : ∀ c ∈ "c".toList, isNameChar c = true := List.forall_mem_singleton.mpr rfl
  rw [isIdentifier_dashes, localize_template rfl (by decide), rest_name_fillTemplate hname] at hplus
  have hleft : '+' ∈ replaceLocal [] (interpolate (expand none "c".toList) "[local]+x".toList) := by
    decide +kernel
  cases hplus '+' hleft

end Localizer

end ThemeTokens
