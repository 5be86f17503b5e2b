import ThemeTokens.Proofs.Reference.Opener

/-! # Writing references in another way

    The scanner looks past the character at hand only to see whether an opener
    stands there.  So a text may be put in the place of each reference without
    a change to what is read around it, provided the text does not begin in the
    middle of an opener and is read by itself in the same way wherever it
    stands (`Rereads`).  `marks_respelled` is this fact; it serves texts that
    spell the references in another way, and texts that hold no reference. -/

namespace ThemeTokens

namespace Mark

/-- The text has the characters of the marks and, in the place of each
    reference, a text that `S` allows for it. -/
inductive Respelled (S : Reference → List Char → Prop) : List Mark → List Char → Prop where
  | nil : Respelled S [] []
  | char (c : Char) {ms : List Mark} {cs : List Char} (behind : Respelled S ms cs) :
      Respelled S (.char c :: ms) (c :: cs)
  | reference {r : Reference} {text cs : List Char} {ms : List Mark} (here : S r text)
      (behind : Respelled S ms cs) : Respelled S (.reference r :: ms) (text ++ cs)

/-- The marks of a text in which `read` gives those of what is in the place of
    a reference. -/
def reread (read : Reference → List Mark) : Mark → List Mark
  | .char c => [.char c]
  | .reference r => read r

/-- With the references themselves in their place nothing changes. -/
theorem flatMap_reread_reference (ms : List Mark) :
    ms.flatMap (reread fun r => [.reference r]) = ms := by
  induction ms with
  | nil => rfl
  | cons m ms ih =>
      rw [List.flatMap_cons, ih]
      cases m with
      | char c => rfl
      | reference r => rfl

theorem flatMap_reread_chars (read : Reference → List Mark) (cs : List Char) (ms : List Mark) :
    (cs.map Mark.char ++ ms).flatMap (reread read)
      = cs.map Mark.char ++ ms.flatMap (reread read) := by
  induction cs with
  | nil => rfl
  | cons c cs ih =>
      show [Mark.char c] ++ (cs.map Mark.char ++ ms).flatMap (reread read) = _
      rw [ih]
      rfl

section Respelled

variable {S T : Reference → List Char → Prop} {ms : List Mark} {cs ds : List Char}

theorem Respelled.append_chars (front : List Char) (h : Respelled S ms ds) :
    Respelled S (front.map Mark.char ++ ms) (front ++ ds) := by
  induction front with
  | nil => exact h
  | cons c front ih => exact .char c ih

/-- Characters are respelled by themselves. -/
theorem Respelled.of_append_chars {front : List Char}
    (h : Respelled S (front.map Mark.char ++ ms) ds) :
    ∃ rest, ds = front ++ rest ∧ Respelled S ms rest := by
  induction front generalizing ds with
  | nil => exact ⟨ds, rfl, h⟩
  | cons c front ih =>
      cases h with
      | char _ behind =>
          obtain ⟨rest, rfl, hrest⟩ := ih behind
          exact ⟨rest, rfl, hrest⟩

/-- A text in which no replacement can begin is found in front of all
    respellings or of none. -/
theorem Respelled.isPrefix {p : List Char} (hds : Respelled S ms ds) (hcs : Respelled T ms cs)
    (hlead : ∀ r text, S r text → ∃ c tail, text = c :: tail ∧ c ∉ p) (h : p <+: ds) :
    p <+: cs := by
  induction hds generalizing p cs with
  | nil =>
      rw [List.prefix_nil.mp h]
      exact List.nil_prefix
  | char c _ ih =>
      cases hcs with
      | char _ behind =>
          cases p with
          | nil => exact List.nil_prefix
          | cons x p =>
              obtain ⟨rfl, hp⟩ := List.cons_prefix_cons.mp h
              refine List.cons_prefix_cons.mpr ⟨rfl, ih behind ?_ hp⟩
              intro r text hs
              obtain ⟨c, tail, heq, hc⟩ := hlead r text hs
              exact ⟨c, tail, heq, fun hmem => hc (List.mem_cons_of_mem _ hmem)⟩
  | reference here _ _ =>
      cases p with
      | nil => exact List.nil_prefix
      | cons x p =>
          obtain ⟨c, tail, rfl, hc⟩ := hlead _ _ here
          obtain ⟨rfl, -⟩ := List.cons_prefix_cons.mp h
          exact absurd List.mem_cons_self hc

end Respelled

end Mark

open Mark (Respelled)

/-- Texts in the place of references that leave the rest as it was read. -/
structure Rereads (S : Reference → List Char → Prop) (read : Reference → List Mark) :
    Prop where
  /-- None begins in the middle of an opener, and one that begins as `theme`
      does stands for a reference that does so too. -/
  lead : ∀ r text, S r text → ∃ c tail, text = c :: tail ∧ c ∉ themeWord.tail ∧ c ≠ '('
    ∧ Text.isAsciiBlank c = false ∧ (c = 't' → r.form = .function)
  /-- Each is read in the same way wherever its reference is set off. -/
  marks : ∀ {r text before more rest other found}, S r text → r.SetOff before rest →
    Respelled Reference.Spells more rest → Respelled S more other →
    marks none other = .ok found → marks before (text ++ other) = .ok (read r ++ found)

/-! ## One mark at a time -/

section Steps

variable {before : Option Char} {c : Char} {tail : List Char}

theorem marks_string (hq : c = '\'' ∨ c = '"') :
    marks before (c :: tail)
      = ((c :: (stringRest c tail).1).map Mark.char ++ ·) <$> marks none (stringRest c tail).2 := by
  rw [marks, if_pos hq]

theorem marks_reference (hq : ¬ (c = '\'' ∨ c = '"')) {r : Reference} {rest : List Char}
    (ho : opener? before (c :: tail) = .ok (some (r, rest))) :
    marks before (c :: tail) = (Mark.reference r :: ·) <$> marks none rest := by
  rw [marks, if_neg hq]
  split
  · rename_i h
    cases ho.symm.trans h
  · rename_i h
    obtain ⟨rfl, rfl⟩ := Prod.mk.inj (Option.some.inj (Except.ok.inj (ho.symm.trans h)))
    rfl
  · rename_i h
    cases ho.symm.trans h

theorem marks_char (hq : ¬ (c = '\'' ∨ c = '"')) (ho : ¬ Opens before (c :: tail)) :
    marks before (c :: tail) = (Mark.char c :: ·) <$> marks (some c) tail := by
  have hnone := opener?_eq_none_iff.mpr ho
  rw [marks, if_neg hq]
  split
  · rename_i h
    cases hnone.symm.trans h
  · rename_i h
    cases hnone.symm.trans h
  · rfl

/-- Apart from a backslash a character ends the string or is part of it. -/
theorem stringRest_cons {quote : Char} (hc : c ≠ '\\') (cs : List Char) :
    stringRest quote (c :: cs) =
      if c = quote then ([c], cs)
      else (c :: (stringRest quote cs).1, (stringRest quote cs).2) := by
  rw [stringRest]
  · exact fun h => absurd h hc
  · exact fun _ _ h => absurd h hc

/-- What a string holds does not depend on what follows it, unless nothing
    ends the string. -/
theorem stringRest_other {quote : Char} {cs other : List Char}
    (h : (stringRest quote cs).2 = [] → other = []) :
    stringRest quote ((stringRest quote cs).1 ++ other) = ((stringRest quote cs).1, other) := by
  -- A backslash is always read with what follows it.
  have hplain : ∀ {c : Char} {cs : List Char}, (c = '\\' → cs = [] → False) →
      (∀ d ds, c = '\\' → cs = d :: ds → False) → c ≠ '\\' := by
    intro c cs hone htwo hc
    cases cs with
    | nil => exact hone hc rfl
    | cons d ds => exact htwo d ds hc rfl
  fun_induction stringRest quote cs with
  | case1 =>
      rw [h rfl]
      rfl
  | case2 =>
      rw [h rfl]
      rfl
  | case3 c cs inside rest heq ih =>
      rw [heq] at ih
      show stringRest quote ('\\' :: c :: (inside ++ other)) = _
      rw [stringRest, ih h]
  | case4 cs hone htwo =>
      show stringRest quote (quote :: other) = _
      rw [stringRest_cons (hplain hone htwo), if_pos rfl]
  | case5 c cs hone htwo hne inside rest heq ih =>
      rw [heq] at ih
      show stringRest quote (c :: (inside ++ other)) = _
      rw [stringRest_cons (hplain hone htwo), if_neg hne, ih h]

end Steps

/-! ## The text itself -/

/-- **NOTHING IS LOST**: a text is made of the characters of its marks and of
    spellings of its references. -/
theorem respelled_of_marks {before : Option Char} {cs : List Char} {ms : List Mark}
    (h : marks before cs = .ok ms) : Respelled Reference.Spells ms cs := by
  induction before, cs using marks.induct generalizing ms with
  | case1 before =>
      rw [marks] at h
      rw [← Except.ok.inj h]
      exact .nil
  | case2 before c tail hq ih =>
      rcases marks_cons_eq_ok h with ⟨-, more, hm, rfl⟩ | ⟨hno, -⟩ | ⟨hno, -⟩
      · have hall := (ih hm).append_chars (c :: (stringRest c tail).1)
        rw [List.cons_append, stringRest_append] at hall
        exact hall
      · exact absurd hq hno
      · exact absurd hq hno
  | case3 before c tail hq fault ho =>
      rcases marks_cons_eq_ok h with ⟨hyes, -⟩ | ⟨-, _, _, _, ho', -⟩ | ⟨-, ho', -⟩
      · exact absurd hyes hq
      · cases ho.symm.trans ho'
      · cases ho.symm.trans ho'
  | case4 before c tail hq r rest ho ih =>
      rw [marks_reference hq ho] at h
      obtain ⟨more, hm, rfl⟩ := Outcome.map_eq_ok.mp h
      obtain ⟨text, hspells, htext, -⟩ := opener?_eq_some_iff.mp ho
      rw [htext]
      exact .reference hspells (ih hm)
  | case5 before c tail hq ho ih =>
      rw [marks_char hq (opener?_eq_none_iff.mp ho)] at h
      obtain ⟨more, hm, rfl⟩ := Outcome.map_eq_ok.mp h
      exact .char c (ih hm)

/-! ## Reading on -/

/-- A spelling of a reference in the function form begins with the word. -/
theorem Reference.Spells.themeWord_prefix {r : Reference} {text : List Char}
    (h : r.Spells text) (hform : r.form = .function) (rest : List Char) :
    themeWord <+: text ++ rest := by
  cases h with
  | atRule => cases hform
  | function =>
      rw [List.append_assoc]
      exact List.prefix_append _ _

section Reading

variable {S : Reference → List Char → Prop} {read : Reference → List Mark}
  {before : Option Char} {ms : List Mark} {cs ds : List Char}

/-- Texts in the place of references open nothing together with a character in
    front of them. -/
theorem Rereads.opens (hS : Rereads S read) {c : Char}
    (hcs : Respelled Reference.Spells ms cs) (hds : Respelled S ms ds)
    (h : Opens before (c :: ds)) : Opens before (c :: cs) := by
  rcases h with hat | ⟨hfree, blanks, hblanks, htheme⟩
  · obtain ⟨rfl, hword⟩ := List.cons_prefix_cons.mp hat
    refine Or.inl (List.cons_prefix_cons.mpr ⟨rfl, ?_⟩)
    -- The word is in front of both texts, or in front of a reference in both.
    cases hds with
    | nil => cases List.prefix_nil.mp hword
    | char d behind =>
        cases hcs with
        | char _ behind' =>
            obtain ⟨rfl, hrest⟩ := List.cons_prefix_cons.mp hword
            refine List.cons_prefix_cons.mpr ⟨rfl, behind.isPrefix behind' ?_ hrest⟩
            intro r text hs
            obtain ⟨c, tail, heq, hc, -⟩ := hS.lead r text hs
            exact ⟨c, tail, heq, hc⟩
    | reference here behind =>
        cases hcs with
        | reference here' behind' =>
            obtain ⟨c, tail, rfl, -, -, -, hform⟩ := hS.lead _ _ here
            obtain ⟨rfl, -⟩ := List.cons_prefix_cons.mp hword
            exact here'.themeWord_prefix (hform rfl) _
  · obtain ⟨rfl, hrest⟩ := List.cons_prefix_cons.mp htheme
    refine Or.inr ⟨hfree, blanks, hblanks, List.cons_prefix_cons.mpr ⟨rfl, ?_⟩⟩
    refine hds.isPrefix hcs ?_ hrest
    intro r text hs
    obtain ⟨c, tail, heq, hword, hparen, hblank, -⟩ := hS.lead r text hs
    refine ⟨c, tail, heq, ?_⟩
    intro hmem
    rcases List.mem_append.mp hmem with hmem | hmem
    · exact hword hmem
    · rcases List.mem_append.mp hmem with hmem | hmem
      · rw [hblanks c hmem] at hblank
        cases hblank
      · exact hparen (List.mem_singleton.mp hmem)

/-- **REREADING**: with other texts in the place of its references a text reads
    as before, but for what is read in those places. -/
theorem marks_respelled (hS : Rereads S read) (h : marks before cs = .ok ms)
    (hds : Respelled S ms ds) : marks before ds = .ok (ms.flatMap (Mark.reread read)) := by
  induction before, cs using marks.induct generalizing ms ds with
  | case1 before =>
      rw [marks] at h
      rw [← Except.ok.inj h] at hds ⊢
      cases hds
      rw [marks]
      rfl
  | case2 before c tail hq ih =>
      rw [marks_string hq] at h
      obtain ⟨more, hm, rfl⟩ := Outcome.map_eq_ok.mp h
      obtain ⟨rest, rfl, hrest⟩ := hds.of_append_chars
      -- A string that nothing ends has nothing behind it here either.
      have hend : (stringRest c tail).2 = [] → rest = [] := by
        intro hnil
        rw [hnil, marks] at hm
        rw [← Except.ok.inj hm] at hrest
        cases hrest
        rfl
      rw [List.cons_append, marks_string hq, stringRest_other hend, ih hm hrest,
        Mark.flatMap_reread_chars]
      rfl
  | case3 before c tail hq fault ho =>
      rcases marks_cons_eq_ok h with ⟨hyes, -⟩ | ⟨-, _, _, _, ho', -⟩ | ⟨-, ho', -⟩
      · exact absurd hyes hq
      · cases ho.symm.trans ho'
      · cases ho.symm.trans ho'
  | case4 before c tail hq r rest ho ih =>
      rw [marks_reference hq ho] at h
      obtain ⟨more, hm, rfl⟩ := Outcome.map_eq_ok.mp h
      obtain ⟨-, -, -, hset⟩ := opener?_eq_some_iff.mp ho
      cases hds with
      | reference here behind =>
          rw [hS.marks here hset (respelled_of_marks hm) behind (ih hm behind)]
          rfl
  | case5 before c tail hq ho ih =>
      have hplain := opener?_eq_none_iff.mp ho
      rw [marks_char hq hplain] at h
      obtain ⟨more, hm, rfl⟩ := Outcome.map_eq_ok.mp h
      cases hds with
      | char _ behind =>
          rw [marks_char hq fun hopens => hplain (hS.opens (respelled_of_marks hm) behind hopens),
            ih hm behind]
          rfl

end Reading

end ThemeTokens
