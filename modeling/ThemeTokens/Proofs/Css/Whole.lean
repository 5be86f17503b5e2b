import ThemeTokens.Proofs.Css.Sound
import ThemeTokens.Proofs.Css.Spelled
import ThemeTokens.Proofs.Css.Written
import ThemeTokens.Proofs.Text.Trim

/-! # Texts that are whole

    A text is whole if it leaves nothing open at its end.  Cut out of a
    stylesheet in front of a stop, and without the white space around it, such
    a text makes the same components alone that it made there
    (`stands_of_isWhole`). -/

namespace ThemeTokens.Css

open Component

/-! ## Stops -/

/-- The character that a stop is, as a token. -/
def Token.stop? : Token → Option Char
  | .semicolon => some ';'
  | .openCurly => some '\x7b'
  | .closeCurly => some '\x7d'
  | _ => none

theorem isStop_of_stop? {t : Token} {c : Char} (h : t.stop? = some c) : isStop c = true := by
  unfold Token.stop? at h
  split at h <;> cases h <;> rfl

theorem mark?_of_stop? {t : Token} {c : Char} (h : t.stop? = some c) : t.mark? = some c := by
  unfold Token.stop? at h
  split at h <;> first | exact h | cases h

/-- A stop is written as the character that it is. -/
theorem IsCut.raw_of_mem {l : Lexeme} {ls : List Lexeme} (h : IsCut ls) (hl : l ∈ ls) {c : Char}
    (hc : l.token.stop? = some c) : l.raw = [c] :=
  (h.spelled_of_mem hl).mark c (mark?_of_stop? hc)

/-! ## Whole texts -/

/-- Whether a semicolon behind the text stands outside all blocks. -/
def isWhole (text : List Char) : Bool :=
  (components (text ++ [';'])).getLast?.any Component.isSemicolon

/-- A text is whole if it stands alone outside all blocks. -/
theorem isWhole_iff {text : List Char} :
    isWhole text = true ↔ Stands none (fun _ => True) text := by
  have hcomponents := unplacedAll_components (text ++ [';'])
  have hunplaced : isWhole text
      = (assemble [] [] (cut (text ++ [';']))).getLast?.any isSemicolon := by
    rw [isWhole, ← hcomponents, unplacedAll_eq_map, List.getLast?_map, Option.any_map]
    congr 1
    exact funext fun c => (isSemicolon_unplaced c).symm
  rw [hunplaced, Option.any_eq_true]
  constructor
  · rintro ⟨c, hlast, hsemicolon⟩
    obtain ⟨cs, hcs⟩ := List.getLast?_eq_some_iff.mp hlast
    have hsound := sound_assemble (cut (text ++ [';']))
    have hlexemes := lexemesAll_assemble (cut (text ++ [';']))
    rw [hcs] at hsound hlexemes
    cases c with
    | block opening content closing => cases hsemicolon
    | token l =>
        rw [lexemesAll_append] at hlexemes
        have hl : l = semicolon := by
          have hmem : l ∈ cut (text ++ [';']) := by
            rw [← hlexemes]
            exact List.mem_append_right _ (List.mem_singleton_self l)
          obtain ⟨k, hk, rfl⟩ := List.mem_map.mp hmem
          have htoken : k.token = .semicolon := beq_iff_eq.mp hsemicolon
          have hraw : k.raw = [';'] := (isCut_lexemes _ _).raw_of_mem hk (by rw [htoken]; rfl)
          rw [Lexeme.unplaced, htoken, hraw]
          rfl
        refine ⟨cs, ?_, hsound.closed_of_append, trivial⟩
        rw [← hlexemes, hl]
        rfl
  · rintro ⟨cs, hcut, hclosed, -⟩
    have hall := assemble_lexemesAll (hclosed.append (.token (l := semicolon) rfl nofun .nil))
    rw [lexemesAll_append] at hall
    refine ⟨.token semicolon, ?_, rfl⟩
    rw [hcut]
    exact (congrArg List.getLast? hall).trans (by simp)

/-! ## Cut out -/

section CutOut

variable {closer : Option Token} {cs : List Component}

/-- None of the components is what would close the block around them. -/
theorem Sound.ne_closer (h : Sound closer cs) (hout : Outer closer) :
    ∀ t ∈ cs.map head, closer ≠ some t := by
  have hopening : ∀ t : Token, t.closer?.isSome = true → closer ≠ some t := by
    intro t ht
    refine hout.ne ?_
    rintro rfl
    cases ht
  induction h with
  | nil => exact List.forall_mem_nil _
  | token _ hcloses _ ih => exact List.forall_mem_cons.mpr ⟨hcloses, ih hout hopening⟩
  | block hclosing _ _ ih =>
      exact List.forall_mem_cons.mpr ⟨hopening _ (by simp [head, hclosing]), ih hout hopening⟩
  | left hopens _ _ => exact List.forall_mem_singleton.mpr (hopening _ hopens)

/-- Closed components do not close a block around them that none of them closes. -/
theorem Closed.inside {inner : List Component} (h : Closed none inner)
    (hne : ∀ t ∈ inner.map head, closer ≠ some t) : Closed closer inner := by
  generalize hnone : none = outer at h
  induction h with
  | nil => exact .nil
  | token hopens _ _ ih =>
      obtain ⟨hcloses, hne⟩ := List.forall_mem_cons.mp hne
      exact .token hopens hcloses (ih hne hnone)
  | block hclosing hcontent _ _ ih =>
      exact .block hclosing hcontent (ih (List.forall_mem_cons.mp hne).2 hnone)

/-- Components with the tokens of closed components, up to places, are those
    components. -/
theorem Sound.unplacedAll_eq (h : Sound closer cs) {ds : List Component} (hds : Closed none ds)
    (hlexemes : (lexemesAll cs).map Lexeme.unplaced = lexemesAll ds) : unplacedAll cs = ds := by
  have hassemble := assemble_unplaced [] [] (lexemesAll cs)
  rw [h.eq_assemble, hlexemes] at hassemble
  exact hassemble.symm.trans (assemble_lexemesAll hds)

/-- Places do not say what components begin with. -/
theorem map_head_unplacedAll (cs : List Component) : (unplacedAll cs).map head = cs.map head := by
  rw [unplacedAll_eq_map, List.map_map]
  exact congrFun (congrArg List.map (funext head_unplaced)) cs

/-- **WHOLE TEXTS**: a whole text between white space, in front of a stop, makes the
    components alone that it makes there. -/
theorem stands_between {ls : List Lexeme} (hsound : Sound closer cs) (hout : Outer closer)
    (hcut : IsCut (lexemesAll cs ++ ls))
    (hstop : ∀ c ∈ (ls.flatMap Lexeme.raw).head?, isStop c = true)
    {a text b : List Char} (hraw : rawAll cs = a ++ text ++ b)
    (ha : ∀ c ∈ a, isSpace c = true) (hb : ∀ c ∈ b, isSpace c = true)
    (hhead : ∀ c ∈ text.head?, isSpace c = false) (hlast : ∀ c ∈ text.getLast?, isSpace c = false)
    (hne : text ≠ []) (hwhole : isWhole text = true) :
    Stands closer (fun heads => ∃ b, cs.map head
      = (white a).map head ++ heads ++ (white b).map head) text := by
  obtain ⟨vs, hvs, hclosed, -⟩ := isWhole_iff.mp hwhole
  have hspace : ∀ c ∈ (ls.flatMap Lexeme.raw).head?, isSpace c = false :=
    fun c hc => isSpace_of_isStop (hstop c hc)
  have hends : Ends (ls.flatMap Lexeme.raw) := by
    cases hw : ls.flatMap Lexeme.raw with
    | nil => exact .nil
    | cons c w => exact .stop (hstop c (by rw [hw]; rfl)) w
  have hstands : Stands none (· = vs.map head) text := ⟨vs, hvs, hclosed, rfl⟩
  obtain ⟨ds, sp, w, hsplit, hsp, hds, hheads, -, htext⟩ :=
    hstands.reads hlast ((Ends.append_iff hb).mpr hends)
  obtain ⟨b', rfl, rfl⟩ := spaces_split hspace hsp hsplit
  have hclosed' := (closed_white (Or.inl rfl) a).append (hds.append (closed_white (Or.inl rfl) b'))
  have hparts : (lexemesAll cs).map Lexeme.unplaced
      = lexemesAll (white a ++ (ds ++ white b')) := by
    have hbehind := hcut.right
    rw [IsCut, List.flatMap_append, List.map_append, ← hbehind, ← rawAll_eq, hraw,
      List.append_assoc, List.append_assoc, cut_white ha (head?_append_of_ne_nil hhead hne _),
      htext, cut_white (List.forall_mem_append.mp hb).2 hspace, ← List.append_assoc,
      ← List.append_assoc] at hcut
    rw [← List.append_cancel_right hcut, lexemesAll_append, lexemesAll_append, List.append_assoc]
  have hheads' : cs.map head = (white a).map head ++ vs.map head ++ (white b').map head := by
    rw [← map_head_unplacedAll, hsound.unplacedAll_eq hclosed' hparts, List.map_append,
      List.map_append, hheads, List.append_assoc]
  refine ⟨vs, hvs, hclosed.inside fun t ht => hsound.ne_closer hout t ?_, b', hheads'⟩
  rw [hheads']
  exact List.mem_append_left _ (List.mem_append_right _ ht)

end CutOut

end ThemeTokens.Css
