import Mathlib.Data.List.Infix
import ThemeTokens.Proofs.ScopedName
import ThemeTokens.Proofs.Text.Search

/-! # Different local names stay different

    The local name is filled in last, at every `[local]` that is left of the
    template by then.  Filling in loses nothing as long as there is such a place
    and all around it is the same for every local name.  The first holds because
    no stage before breaks up a `[local]` (`infix_interpolate`, `none_mem_places`);
    the second because only a digest placeholder looks at the local name
    (`interpolate_congr`, `expand_congr`).  Together they make naming injective
    (`localize_injective`). -/

namespace ThemeTokens

namespace ScopedName

/-! ## The local name in a text -/

/-- The text has `[local]` in any letter case. -/
def AsksLocal (cs : List Char) : Prop :=
  "[local]".toList <:+: cs.map Char.toLower

instance (cs : List Char) : Decidable (AsksLocal cs) :=
  decidable_of_iff (Text.occurs "[local]".toList (cs.map Char.toLower) = true)
    Text.occurs_iff_isInfix

theorem asksLocal_iff {cs : List Char} :
    AsksLocal cs ↔ ∃ u, u.map Char.toLower = "[local]".toList ∧ u <:+: cs := by
  rw [AsksLocal, List.infix_map_iff]
  constructor
  · rintro ⟨u, hu, hlocal⟩
    exact ⟨u, hlocal.symm, hu⟩
  · rintro ⟨u, hlocal, hu⟩
    exact ⟨u, hu, hlocal.symm⟩

/-- What is no letter is in lower case only if it was so before. -/
theorem eq_of_toLower {c d : Char} (h : c.toLower = d) (hd : d.toNat < 97 ∨ 122 < d.toNat) :
    c = d := by
  rcases toLower_cases c with hsame | ⟨hlow, hhigh, hplace⟩
  · exact hsame.symm.trans h
  · rw [h] at hplace
    omega

/-- Whatever the letter case, the brackets are at the ends and nowhere else. -/
theorem exists_of_local {u : List Char} (h : u.map Char.toLower = "[local]".toList) :
    ∃ v, u = '[' :: (v ++ [']']) ∧ ']' ∉ v ∧ v.map Char.toLower = "local".toList := by
  have hparts : "[local]".toList = '[' :: ("local".toList ++ [']']) := by decide
  rw [hparts, List.map_eq_cons_iff] at h
  obtain ⟨c, rest, rfl, hopen, hrest⟩ := h
  obtain ⟨v, last, rfl, hv, hlast⟩ := List.map_eq_append_iff.mp hrest
  obtain ⟨d, rfl, hclose⟩ := List.map_eq_singleton_iff.mp hlast
  refine ⟨v, ?_, fun hmem => ?_, hv⟩
  · rw [eq_of_toLower hopen (by decide), eq_of_toLower hclose (by decide)]
  · have hlower : ']' ∈ v.map Char.toLower := List.mem_map.mpr ⟨']', hmem, by decide⟩
    rw [hv] at hlower
    exact absurd hlower (by decide)

/-- Where the text has `[local]` there is a place for the local name. -/
theorem none_mem_places {u : List Char} (hu : u.map Char.toLower = "[local]".toList)
    {cs : List Char} (h : u <:+: cs) : none ∈ places cs := by
  fun_induction places cs with
  | case1 =>
      rw [List.infix_nil.mp h] at hu
      cases hu
  | case2 => exact List.mem_cons_self
  | case3 c tail hnone ih =>
      rcases List.infix_cons_iff.mp h with ⟨rest, hfront⟩ | hlater
      · have hsome := afterLocal?_eq_some_iff.mpr ⟨u, hfront.symm, hu⟩
        cases hnone.symm.trans hsome
      · exact List.mem_cons_of_mem _ (ih hlater)

/-! ## Filling it in -/

section Filling

variable (write : Char → List Char)

/-- A longer local name makes a longer text, by as much for each place. -/
theorem length_filled (n : List Char) (ps : List (Option Char)) :
    (ps.flatMap (Option.elim · n write)).length
      = ps.count none * n.length + (ps.flatMap (Option.elim · [] write)).length := by
  induction ps with
  | nil => exact (Nat.zero_mul _ ▸ rfl)
  | cons p ps ih =>
      rw [List.flatMap_cons, List.flatMap_cons, List.length_append, List.length_append, ih]
      cases p with
      | none =>
          rw [List.count_cons_self, Nat.succ_mul, Option.elim_none, Option.elim_none,
            List.length_nil]
          omega
      | some c =>
          rw [List.count_cons_of_ne (Option.some_ne_none c), Option.elim_some, Option.elim_some]
          omega

/-- **FILLING IN**: with a place for it, the local name can be told from the text. -/
theorem filled_injective {ps : List (Option Char)} (h : none ∈ ps) :
    Function.Injective fun n => ps.flatMap (Option.elim · n write) := by
  intro n m (heq : ps.flatMap (Option.elim · n write) = ps.flatMap (Option.elim · m write))
  -- Texts of the same length have local names of the same length in them.
  have hlen : n.length = m.length := by
    have htexts := congrArg List.length heq
    rw [length_filled write n, length_filled write m, Nat.add_right_cancel_iff] at htexts
    exact Nat.eq_of_mul_eq_mul_left (List.count_pos_iff.mpr h) htexts
  obtain ⟨before, after, rfl⟩ := List.append_of_mem h
  rw [List.flatMap_append, List.flatMap_append, List.flatMap_cons, List.flatMap_cons] at heq
  have hbefore : (before.flatMap (Option.elim · n write)).length
      = (before.flatMap (Option.elim · m write)).length := by
    rw [length_filled write n, length_filled write m, hlen]
  exact (List.append_inj (List.append_inj heq hbefore).2 hlen).1

end Filling

/-! ## The template before that -/

theorem placeholder?_eq_some_iff {cs inside rest : List Char} :
    placeholder? cs = some (inside, rest) ↔ ']' ∉ inside ∧ cs = inside ++ ']' :: rest := by
  induction cs generalizing inside with
  | nil =>
      refine iff_of_false nofun ?_
      rintro ⟨-, h⟩
      exact absurd h.symm (List.append_ne_nil_of_right_ne_nil _ (List.cons_ne_nil _ _))
  | cons c cs ih =>
      rw [placeholder?]
      by_cases hc : c = ']'
      · rw [if_pos hc, hc]
        constructor
        · intro h
          obtain ⟨rfl, rfl⟩ := Prod.mk.inj (Option.some.inj h)
          exact ⟨List.not_mem_nil, rfl⟩
        · rintro ⟨hinside, heq⟩
          cases inside with
          | nil => rw [(List.cons.inj heq).2]
          | cons d inside =>
              exact absurd ((List.cons.inj heq).1 ▸ List.mem_cons_self) hinside
      · rw [if_neg hc, Option.map_eq_some_iff]
        constructor
        · rintro ⟨⟨i, r⟩, hinside, heq⟩
          obtain ⟨rfl, rfl⟩ := Prod.mk.inj heq
          obtain ⟨hclose, rfl⟩ := ih.mp hinside
          exact ⟨fun hmem => hclose ((List.mem_cons.mp hmem).resolve_left (Ne.symm hc)), rfl⟩
        · rintro ⟨hinside, heq⟩
          cases inside with
          | nil => exact absurd (List.cons.inj heq).1 hc
          | cons d inside =>
              obtain ⟨rfl, htail⟩ := List.cons.inj heq
              exact ⟨(inside, rest),
                ih.mpr ⟨fun hmem => hinside (List.mem_cons_of_mem _ hmem), htail⟩, rfl⟩

/-- A text has one first closing bracket. -/
theorem first_closing {a b c d : List Char} (ha : ']' ∉ a) (hb : ']' ∉ b)
    (h : a ++ ']' :: c = b ++ ']' :: d) : a = b ∧ c = d := by
  have hleft : placeholder? (a ++ ']' :: c) = some (a, c) :=
    placeholder?_eq_some_iff.mpr ⟨ha, rfl⟩
  have hright : placeholder? (a ++ ']' :: c) = some (b, d) :=
    placeholder?_eq_some_iff.mpr ⟨hb, h⟩
  exact Prod.mk.inj (Option.some.inj (hleft.symm.trans hright))

section Interpolating

variable {e e' : List Char → Option (List Char)} {cs inside rest : List Char}

theorem interpolate_unclosed (h : placeholder? cs = none) :
    interpolate e ('[' :: cs) = '[' :: cs := by
  rw [interpolate, if_pos rfl]
  split
  · rfl
  · rename_i hsome
    cases h.symm.trans hsome

theorem interpolate_placeholder (h : placeholder? cs = some (inside, rest)) :
    interpolate e ('[' :: cs)
      = (e inside).getD ('[' :: inside ++ [']']) ++ interpolate e rest := by
  rw [interpolate, if_pos rfl]
  split
  · rename_i hnone
    cases h.symm.trans hnone
  · rename_i hsome
    obtain ⟨rfl, rfl⟩ := Prod.mk.inj (Option.some.inj (h.symm.trans hsome))
    cases e inside with
    | none => rfl
    | some text => rfl

theorem interpolate_plain {c : Char} (h : c ≠ '[') :
    interpolate e (c :: cs) = c :: interpolate e cs := by
  rw [interpolate, if_neg h]

/-- Only what begins behind an opening bracket is looked up. -/
theorem interpolate_congr (h : ∀ inside, '[' :: inside <:+: cs → e inside = e' inside) :
    interpolate e cs = interpolate e' cs := by
  induction cs using interpolate.induct with
  | case1 => rw [interpolate, interpolate]
  | case2 tail hnone => rw [interpolate_unclosed hnone, interpolate_unclosed hnone]
  | case3 tail inside rest hsome ih =>
      obtain ⟨-, rfl⟩ := placeholder?_eq_some_iff.mp hsome
      have hhere : '[' :: inside <:+: '[' :: (inside ++ ']' :: rest) :=
        (List.prefix_append ('[' :: inside) (']' :: rest)).isInfix
      have hrest : rest <:+: '[' :: (inside ++ ']' :: rest) :=
        ⟨'[' :: (inside ++ [']']), [], by simp⟩
      rw [interpolate_placeholder hsome, interpolate_placeholder hsome,
        ih fun other hother => h other (hother.trans hrest), h inside hhere]
  | case4 c tail hc ih =>
      rw [interpolate_plain hc, interpolate_plain hc,
        ih fun inside hinside => h inside (List.infix_cons hinside)]

/-- **NOT BROKEN UP**: what stands for itself in brackets is still there, as long as
    no placeholder is looked up that another bracket opens in. -/
theorem infix_interpolate {v : List Char} (hv : ']' ∉ v) (h : '[' :: (v ++ [']']) <:+: cs)
    (hkept : ∀ inside, '[' :: inside <:+: cs → inside = v ∨ '[' ∈ inside → e inside = none) :
    '[' :: (v ++ [']']) <:+: interpolate e cs := by
  induction cs using interpolate.induct with
  | case1 => rwa [interpolate]
  | case2 tail hnone => rwa [interpolate_unclosed hnone]
  | case3 tail inside rest hsome ih =>
      obtain ⟨hinside, rfl⟩ := placeholder?_eq_some_iff.mp hsome
      have hhere : '[' :: inside <:+: '[' :: (inside ++ ']' :: rest) :=
        (List.prefix_append ('[' :: inside) (']' :: rest)).isInfix
      have hrest : rest <:+: '[' :: (inside ++ ']' :: rest) :=
        ⟨'[' :: (inside ++ [']']), [], by simp⟩
      have hclose : ']' ∉ '[' :: inside := List.not_mem_cons_of_ne_of_not_mem (by decide) hinside
      rw [interpolate_placeholder hsome]
      obtain ⟨s, t, hst⟩ := h
      have hmark : '[' :: inside ++ ']' :: rest = s ++ '[' :: v ++ ']' :: t := by
        rw [List.cons_append, ← hst]
        simp only [List.append_assoc, List.cons_append, List.nil_append]
      by_cases hs : ']' ∈ s
      · -- The placeholder is closed before `v` begins.
        obtain ⟨front, back, rfl, hfront⟩ := List.eq_append_cons_of_mem hs
        rw [List.append_assoc, List.append_assoc] at hmark
        obtain ⟨-, rfl⟩ := first_closing hclose hfront hmark
        have hlater : '[' :: (v ++ [']']) <:+: back ++ '[' :: v ++ ']' :: t := ⟨back, t, by simp⟩
        refine (ih ?_ fun other hother => hkept other (hother.trans hrest)).trans
          (List.suffix_append _ _).isInfix
        simpa using hlater
      · -- The bracket that closes the placeholder closes `v`, too.
        have hfront : ']' ∉ s ++ '[' :: v := by
          rw [List.mem_append, not_or]
          exact ⟨hs, List.not_mem_cons_of_ne_of_not_mem (by decide) hv⟩
        obtain ⟨hsame, -⟩ := first_closing hclose hfront hmark
        have hnone : e inside = none := by
          refine hkept inside hhere ?_
          cases s with
          | nil => exact .inl (List.cons.inj hsame).2
          | cons c s =>
              rw [(List.cons.inj hsame).2]
              exact .inr (List.mem_append_right _ List.mem_cons_self)
        rw [hnone, Option.getD_none, hsame]
        exact ⟨s, interpolate e rest, by simp⟩
  | case4 c tail hc ih =>
      have hplain : '[' ∉ [c] := fun hmem => hc (List.mem_singleton.mp hmem).symm
      have hlater : '[' :: (v ++ [']']) <:+: tail := (Text.infix_append_left_iff hplain tail).mp h
      rw [interpolate_plain hc]
      exact List.infix_cons (ih hlater fun inside hinside => hkept inside (List.infix_cons hinside))

end Interpolating

/-! ## What a placeholder stands for -/

section Expanding

variable {path : Option String} {inside : List Char}

/-- A digest is only asked for by its name. -/
theorem expandHash_eq_none (h : ¬ "hash".toList <+: inside) (n : List Char) :
    expandHash inside n = none := by
  rw [expandHash]
  split
  · rename_i head arguments hparts
    refine if_pos fun hhash => h ?_
    have hjoined := Text.joinWith_splitAt ':' inside
    rw [hparts, hhash] at hjoined
    rw [← hjoined]
    cases arguments with
    | nil => exact List.prefix_rfl
    | cons second arguments =>
        rw [Text.joinWith_cons _ (List.cons_ne_nil _ _), List.append_assoc]
        exact List.prefix_append _ _
  · rfl

/-- Whatever is no digest does not depend on the local name. -/
theorem expand_congr (h : ¬ "hash".toList <+: inside) (n m : List Char) :
    expand path n inside = expand path m inside := by
  rw [expand, expand, expandHash_eq_none h, expandHash_eq_none h]

/-- `[local]` stands for itself until the end, and so does what another bracket
    opens in. -/
theorem expand_eq_none (h : ¬ "hash".toList <+: inside)
    (hlocal : inside.map Char.toLower = "local".toList ∨ '[' ∈ inside) (n : List Char) :
    expand path n inside = none := by
  have hne : ∀ known ∈ ["name".toList, "ext".toList, "folder".toList, "path".toList],
      inside ≠ known := by
    have hall : ∀ known ∈ ["name".toList, "ext".toList, "folder".toList, "path".toList],
        ¬ (known.map Char.toLower = "local".toList ∨ '[' ∈ known) := by
      decide
    rintro known hknown rfl
    exact hall _ hknown hlocal
  rw [List.forall_mem_cons, List.forall_mem_cons, List.forall_mem_cons, List.forall_mem_singleton]
    at hne
  obtain ⟨hname, hext, hfolder, hpath⟩ := hne
  rw [expand, if_neg hname, if_neg hext, if_neg hfolder, if_neg hpath, expandHash_eq_none h]

end Expanding

/-! ## The whole template -/

section Template

variable {template : List Char} {path : Option String}

/-- Without digests the template is the same for every local name. -/
theorem interpolate_expand_congr (hhash : ¬ "[hash".toList <:+: template) (n m : List Char) :
    interpolate (expand path n) template = interpolate (expand path m) template :=
  interpolate_congr fun _ hinside =>
    expand_congr (fun hdigest => hhash (((List.prefix_cons_inj '[').mpr hdigest).isInfix.trans
      hinside)) n m

/-- A template that asks for the local name still does when it is filled in. -/
theorem asksLocal_interpolate (hlocal : AsksLocal template)
    (hhash : ¬ "[hash".toList <:+: template) (n : List Char) :
    AsksLocal (interpolate (expand path n) template) := by
  obtain ⟨u, hu, hin⟩ := asksLocal_iff.mp hlocal
  obtain ⟨v, rfl, hclose, hv⟩ := exists_of_local hu
  refine asksLocal_iff.mpr ⟨_, hu, infix_interpolate hclose hin fun inside hinside hkind => ?_⟩
  refine expand_eq_none (fun hdigest => hhash ?_) (hkind.imp_left fun heq => heq ▸ hv) n
  exact ((List.prefix_cons_inj '[').mpr hdigest).isInfix.trans hinside

/-- **TEMPLATES**: the local name can be told from what it is filled in to. -/
theorem fillTemplate_injective (hlocal : AsksLocal template)
    (hhash : ¬ "[hash".toList <:+: template) :
    Function.Injective fun n => fillTemplate template n path := by
  intro n m (heq : fillTemplate template n path = fillTemplate template m path)
  obtain ⟨u, hu, hin⟩ := asksLocal_iff.mp (asksLocal_interpolate hlocal hhash n)
  obtain ⟨v, rfl, -, -⟩ := exists_of_local hu
  rw [fillTemplate_eq, fillTemplate_eq, interpolate_expand_congr hhash m n] at heq
  -- Leading dots are dropped, and no bracket with them.
  have hdots : '[' ∉ (interpolate (expand path n) template).takeWhile (· == '.') := fun hmem =>
    absurd (List.mem_takeWhile_imp (p := (· == '.')) hmem) (by decide)
  rw [← List.takeWhile_append_dropWhile (p := (· == '.'))
    (l := interpolate (expand path n) template)] at hin
  exact filled_injective written
    (none_mem_places hu ((Text.infix_append_left_iff hdots _).mp hin)) (List.append_cancel_left heq)

end Template

end ScopedName

namespace Localizer

open ScopedName

/-- **DIFFERENT NAMES**: the template `default`, and any other that asks for the
    local name and for no digest, gives different names to different local
    names. -/
theorem localize_injective {localizer : Localizer} {template : String}
    (h : localizer.naming = some (.template template))
    (htemplate : template = "default"
      ∨ AsksLocal template.toList ∧ ¬ "[hash".toList <:+: template.toList) :
    Function.Injective localizer.localize := by
  intro x y heq
  by_cases hdefault : template = "default"
  · subst hdefault
    rw [localize, localize, h] at heq
    simp only [if_true, String.append_left_inj, String.append_right_inj] at heq
    exact heq
  · obtain ⟨hlocal, hhash⟩ := htemplate.resolve_left hdefault
    have htexts := congrArg String.toList heq
    rw [localize_template h hdefault, localize_template h hdefault] at htexts
    exact String.toList_injective (fillTemplate_injective hlocal hhash htexts)

/-- The file and the names have placeholders in them. -/
theorem localize_injective_placeholders :
    Function.Injective
      (localize ⟨some (.template "[[LOCAL]_[name]:[local"), some "ui/[local].css", ""⟩) :=
  localize_injective rfl (.inr ⟨by decide, by decide⟩)

end Localizer

end ThemeTokens
