import Mathlib.Data.List.Induction
import Mathlib.Data.List.Nodup
import ThemeTokens.Modern.Blocks
import ThemeTokens.Proofs.Selector

/-! # Merged blocks as groups

    Blocks are merged one after the other into those that came before.  What
    has been merged is at any time the blocks so far in groups: a group for
    each list of properties and values, in the order in which the lists came
    first, and in the place of a group its first block with the selectors of
    all (`Grouped`, `mergeIdentical_groups`). -/

namespace ThemeTokens.Modern

/-- What a block declares: its properties with their values, in order. -/
def contents (block : Rule) : List (String × String) :=
  block.declarations.map fun d => (d.property, d.value)

/-- The blocks that declare just that, in order. -/
def declaring (what : List (String × String)) (blocks : List Rule) : List Rule :=
  blocks.filter fun b => contents b == what

/-- The first of the blocks that declare just that, with the selectors of them
    all. -/
def IsGroup (what : List (String × String)) (blocks : List Rule) (b : Rule) : Prop :=
  ∃ first, (declaring what blocks).head? = some first
    ∧ b = { first with
        selector := Selector.joinBranches ((declaring what blocks).map Rule.selector) }

theorem sameDeclarations_iff {ds es : List Declaration} :
    sameDeclarations ds es = true
      ↔ ds.map (fun d => (d.property, d.value)) = es.map fun d => (d.property, d.value) := by
  induction ds generalizing es with
  | nil =>
      cases es with
      | nil => exact iff_of_true rfl rfl
      | cons e es => exact iff_of_false nofun nofun
  | cons d ds ih =>
      cases es with
      | nil => exact iff_of_false nofun nofun
      | cons e es =>
          rw [sameDeclarations, Bool.and_eq_true, Bool.and_eq_true, beq_iff_eq, beq_iff_eq, ih,
            List.map_cons, List.map_cons, List.cons.injEq, Prod.mk.injEq]

/-! ## One block more -/

section Declaring

variable {what : List (String × String)} {block : Rule}

theorem declaring_concat_of_eq (h : contents block = what) (blocks : List Rule) :
    declaring what (blocks ++ [block]) = declaring what blocks ++ [block] := by
  rw [declaring, List.filter_append,
    List.filter_cons_of_pos (p := fun b => contents b == what) (beq_iff_eq.mpr h)]
  rfl

theorem declaring_concat_of_ne (h : contents block ≠ what) (blocks : List Rule) :
    declaring what (blocks ++ [block]) = declaring what blocks := by
  rw [declaring, List.filter_append, List.filter_cons_of_neg (by rw [beq_iff_eq]; exact h)]
  exact List.append_nil _

theorem declaring_eq_nil {blocks : List Rule} (h : what ∉ blocks.map contents) :
    declaring what blocks = [] := by
  refine List.filter_eq_nil_iff.mpr fun b hb heq => h ?_
  exact List.mem_map.mpr ⟨b, hb, eq_of_beq heq⟩

end Declaring

section Adding

variable {block : Rule}

/-- A block that declares what none of the others does goes to the end. -/
theorem addBlock_of_not_mem {merged : List Rule} (h : contents block ∉ merged.map contents) :
    addBlock block merged = merged ++ [block] := by
  induction merged with
  | nil => rfl
  | cons first rest ih =>
      rw [List.map_cons, List.mem_cons, not_or] at h
      obtain ⟨hfirst, hrest⟩ := h
      rw [addBlock, if_neg (fun hsame => hfirst (sameDeclarations_iff.mp hsame).symm), ih hrest]
      rfl

/-- Any other is joined to the first that declares the same. -/
theorem addBlock_append {b : Rule} {before : List Rule}
    (hbefore : contents block ∉ before.map contents) (hb : contents b = contents block)
    (after : List Rule) :
    addBlock block (before ++ b :: after)
      = before ++ { b with selector := b.selector ++ ", " ++ block.selector } :: after := by
  induction before with
  | nil => exact if_pos (sameDeclarations_iff.mpr hb)
  | cons first rest ih =>
      rw [List.map_cons, List.mem_cons, not_or] at hbefore
      obtain ⟨hfirst, hrest⟩ := hbefore
      rw [List.cons_append, addBlock,
        if_neg (fun hsame => hfirst (sameDeclarations_iff.mp hsame).symm), ih hrest]
      rfl

end Adding

namespace IsGroup

variable {what : List (String × String)} {blocks : List Rule} {b block : Rule}

/-- A block that declares something else leaves a group what it was. -/
theorem concat_of_ne (h : IsGroup what blocks b) (hne : contents block ≠ what) :
    IsGroup what (blocks ++ [block]) b := by
  rw [IsGroup, declaring_concat_of_ne hne]
  exact h

/-- A block that declares the same puts its selector behind those of the group. -/
theorem joined (h : IsGroup what blocks b) (hblock : contents block = what) :
    IsGroup what (blocks ++ [block])
      { b with selector := b.selector ++ ", " ++ block.selector } := by
  obtain ⟨first, hfirst, rfl⟩ := h
  refine ⟨first, ?_, ?_⟩
  · rw [declaring_concat_of_eq hblock, List.head?_append, hfirst]
    rfl
  · have hne : (declaring what blocks).map Rule.selector ≠ [] := by
      intro hnil
      rw [List.map_eq_nil_iff.mp hnil] at hfirst
      cases hfirst
    rw [declaring_concat_of_eq hblock, List.map_append, List.map_singleton,
      Selector.joinBranches_concat hne]

/-- The first block of a group is the group. -/
theorem alone (h : contents block ∉ blocks.map contents) :
    IsGroup (contents block) (blocks ++ [block]) block := by
  rw [IsGroup, declaring_concat_of_eq rfl, declaring_eq_nil h]
  refine ⟨block, rfl, ?_⟩
  rw [List.nil_append, List.map_singleton, Selector.joinBranches_singleton]

end IsGroup

/-! ## All blocks -/

/-- What the blocks are merged to: their groups in the order of the first of
    each. -/
structure Grouped (blocks merged : List Rule) : Prop where
  order : merged.map contents = (blocks.map contents).eraseDups
  different : (merged.map contents).Nodup
  groups : ∀ b ∈ merged, IsGroup (contents b) blocks b

namespace Grouped

variable {blocks merged : List Rule} {block : Rule}

theorem nil : Grouped [] [] where
  order := rfl
  different := List.nodup_nil
  groups := List.forall_mem_nil _

theorem mem_iff (h : Grouped blocks merged) {what : List (String × String)} :
    what ∈ merged.map contents ↔ what ∈ blocks.map contents := by
  rw [h.order, List.mem_eraseDups]

/-- The order stays where the list has come before, and gets the list at its end
    where it has not. -/
theorem eraseDups_concat (blocks : List Rule) (block : Rule) :
    ((blocks ++ [block]).map contents).eraseDups
      = if contents block ∈ blocks.map contents then (blocks.map contents).eraseDups
        else (blocks.map contents).eraseDups ++ [contents block] := by
  rw [List.map_append, List.eraseDups_append, List.map_singleton, List.removeAll]
  by_cases hmem : contents block ∈ blocks.map contents
  · rw [if_pos hmem, List.filter_cons_of_neg (by simpa using hmem)]
    exact List.append_nil _
  · rw [if_neg hmem, List.filter_cons_of_pos (by simpa using hmem)]
    rfl

/-- A block that declares what none has declared begins a group. -/
theorem begun (h : Grouped blocks merged) (hnew : contents block ∉ blocks.map contents) :
    Grouped (blocks ++ [block]) (merged ++ [block]) where
  order := by
    rw [eraseDups_concat, if_neg hnew, List.map_append, List.map_singleton, h.order]
  different := by
    rw [List.map_append, List.map_singleton]
    refine List.Nodup.append h.different (List.nodup_singleton _) ?_
    rw [List.disjoint_singleton]
    exact fun hmem => hnew (h.mem_iff.mp hmem)
  groups := by
    intro b hb
    rcases List.mem_append.mp hb with hb | hb
    · refine (h.groups b hb).concat_of_ne ?_
      intro heq
      exact hnew (h.mem_iff.mp (heq ▸ List.mem_map_of_mem hb))
    · rw [List.mem_singleton.mp hb]
      exact IsGroup.alone hnew

/-- Any other block joins the group that declares the same. -/
theorem joined {before after : List Rule} {b : Rule} (h : Grouped blocks (before ++ b :: after))
    (hb : contents b = contents block) :
    Grouped (blocks ++ [block])
      (before ++ { b with selector := b.selector ++ ", " ++ block.selector } :: after) where
  order := by
    have hmem : contents block ∈ blocks.map contents := by
      rw [← hb, ← h.mem_iff]
      exact List.mem_map_of_mem (List.mem_append_right _ List.mem_cons_self)
    rw [eraseDups_concat, if_pos hmem, ← h.order, List.map_append, List.map_append]
    rfl
  different := by
    have hdifferent := h.different
    rw [List.map_append] at hdifferent ⊢
    exact hdifferent
  groups := by
    -- No other group declares the same.
    have hdifferent := h.different
    rw [List.map_append, List.map_cons, List.nodup_middle, List.nodup_cons, ← List.map_append]
      at hdifferent
    have hothers : ∀ o ∈ before ++ after, IsGroup (contents o) (blocks ++ [block]) o := by
      intro o ho
      refine (h.groups o ?_).concat_of_ne ?_
      · rcases List.mem_append.mp ho with ho | ho
        · exact List.mem_append_left _ ho
        · exact List.mem_append_right _ (List.mem_cons_of_mem _ ho)
      · intro heq
        exact hdifferent.1 (hb.trans heq ▸ List.mem_map_of_mem ho)
    intro o ho
    rcases List.mem_append.mp ho with ho | ho
    · exact hothers o (List.mem_append_left _ ho)
    rcases List.mem_cons.mp ho with rfl | ho
    · exact (h.groups b (List.mem_append_right _ List.mem_cons_self)).joined hb.symm
    · exact hothers o (List.mem_append_right _ ho)

/-- **ONE BLOCK MORE** keeps the groups. -/
theorem addBlock (h : Grouped blocks merged) (block : Rule) :
    Grouped (blocks ++ [block]) (Modern.addBlock block merged) := by
  by_cases hmem : contents block ∈ merged.map contents
  · obtain ⟨b, hb, heq⟩ := List.mem_map.mp hmem
    obtain ⟨before, after, rfl⟩ := List.append_of_mem hb
    have hbefore : contents block ∉ before.map contents := by
      intro hbefore
      have hdifferent := h.different
      rw [List.map_append, List.map_cons, List.nodup_middle, List.nodup_cons] at hdifferent
      exact hdifferent.1 (List.mem_append_left _ (heq ▸ hbefore))
    rw [addBlock_append hbefore heq]
    exact h.joined heq
  · rw [addBlock_of_not_mem hmem]
    exact h.begun fun hblocks => hmem (h.mem_iff.mpr hblocks)

end Grouped

/-- However many blocks are merged, they are grouped. -/
theorem grouped_mergeIdentical (blocks : List Rule) : Grouped blocks (mergeIdentical blocks) := by
  induction blocks using List.reverseRecOn with
  | nil => exact .nil
  | append_singleton blocks block ih =>
      rw [mergeIdentical, List.foldl_append]
      exact ih.addBlock block

/-- **GROUPS**: no two merged blocks declare the same, each list of properties
    and values has its block in the order of the first that declares it, and
    that block is the first with the selectors of all that do, in their
    order. -/
theorem mergeIdentical_groups (blocks : List Rule) :
    ((mergeIdentical blocks).map contents).Nodup
      ∧ (mergeIdentical blocks).map contents = (blocks.map contents).eraseDups
      ∧ ∀ b ∈ mergeIdentical blocks, IsGroup (contents b) blocks b := by
  obtain ⟨order, different, groups⟩ := grouped_mergeIdentical blocks
  exact ⟨different, order, groups⟩

/-- A group stays in the place of its first block. -/
example :
    (mergeIdentical [⟨".a", [⟨"--color", "teal", .none⟩], .none⟩,
        ⟨".b", [⟨"--color", "red", .none⟩], .none⟩,
        ⟨".c", [⟨"--color", "teal", ⟨1, 1⟩⟩], .none⟩]).map Rule.selector
      = [".a, .c", ".b"] := by
  decide

end ThemeTokens.Modern
