import ThemeTokens.Text.Blank

/-! # Trimming

    Trimming takes blanks off both ends and nothing else, so it leaves alone
    what neither begins nor ends with one. -/

namespace ThemeTokens.Text

/-- The text neither begins nor ends with a blank. -/
def Trimmed (cs : List Char) : Prop :=
  (∀ c ∈ cs.head?, isBlank c = false) ∧ ∀ c ∈ cs.getLast?, isBlank c = false

instance (cs : List Char) : Decidable (Trimmed cs) :=
  decidable_of_iff (cs.head?.any isBlank = false ∧ cs.getLast?.any isBlank = false)
    (and_congr (Option.any_eq_false _ _) (Option.any_eq_false _ _))

theorem mem_takeWhile_blank {cs : List Char} : ∀ c ∈ cs.takeWhile isBlank, isBlank c = true :=
  List.all_eq_true.mp List.all_takeWhile

/-- A run of blanks is over at once where the text begins with something else. -/
theorem trimStart_of_head {cs : List Char} (h : ∀ c ∈ cs.head?, isBlank c = false) :
    trimStart cs = cs := by
  cases cs with
  | nil => rfl
  | cons c cs => rw [trimStart_cons, h c rfl, if_neg nofun]

/-- Behind a run of blanks stands something else. -/
theorem head?_dropWhile_blank (cs : List Char) :
    ∀ c ∈ (cs.dropWhile isBlank).head?, isBlank c = false := by
  intro c hc
  have hnot := List.head?_dropWhile_not isBlank cs
  rw [hc] at hnot
  exact hnot

/-- What is taken off the end is blank. -/
theorem exists_trimEnd (cs : List Char) :
    ∃ b, cs = trimEnd cs ++ b ∧ ∀ c ∈ b, isBlank c = true := by
  refine ⟨(cs.reverse.takeWhile isBlank).reverse, ?_, fun c hc => ?_⟩
  · rw [trimEnd, ← List.reverse_append, List.takeWhile_append_dropWhile, List.reverse_reverse]
  · exact mem_takeWhile_blank c (List.mem_reverse.mp hc)

/-- What is taken off is blank. -/
theorem exists_trim (cs : List Char) :
    ∃ a b, cs = a ++ trim cs ++ b ∧ (∀ c ∈ a, isBlank c = true) ∧ ∀ c ∈ b, isBlank c = true := by
  obtain ⟨b, hb, hblank⟩ := exists_trimEnd (trimStart cs)
  refine ⟨cs.takeWhile isBlank, b, ?_, mem_takeWhile_blank, hblank⟩
  rw [List.append_assoc, trim, ← hb, trimStart, List.takeWhile_append_dropWhile]

/-- A text that was trimmed is trimmed. -/
theorem trimmed_trim (cs : List Char) : Trimmed (trim cs) := by
  refine ⟨?_, ?_⟩
  · obtain ⟨b, hb, -⟩ := exists_trimEnd (trimStart cs)
    intro c hc
    refine head?_dropWhile_blank cs c ?_
    rw [← trimStart, hb, List.head?_append, show (trimEnd (trimStart cs)).head? = some c from hc]
    rfl
  · intro c hc
    rw [trim, trimEnd, List.getLast?_reverse] at hc
    exact head?_dropWhile_blank _ c hc

/-- **TRIMMING**: blanks around a text that has none at its ends are all that is
    taken off. -/
theorem trim_around {a cs b : List Char} (ha : ∀ c ∈ a, isBlank c = true)
    (hb : ∀ c ∈ b, isBlank c = true) (h : Trimmed cs) : trim (a ++ cs ++ b) = cs := by
  have hback : ∀ c ∈ b.reverse, isBlank c = true := fun c hc => hb c (List.mem_reverse.mp hc)
  cases cs with
  | nil =>
      have hall : trimStart (a ++ [] ++ b) = [] := by
        rw [List.append_nil, trimStart, List.dropWhile_append_of_pos ha,
          ← List.append_nil b, List.dropWhile_append_of_pos hb]
        rfl
      rw [trim, hall]
      rfl
  | cons c cs =>
      have hfront : trimStart (a ++ (c :: cs) ++ b) = c :: cs ++ b := by
        rw [List.append_assoc, trimStart, List.dropWhile_append_of_pos ha]
        exact trimStart_of_head h.1
      have hlast : ∀ d ∈ (c :: cs).reverse.head?, isBlank d = false := by
        rw [List.head?_reverse]
        exact h.2
      rw [trim, hfront, trimEnd, List.reverse_append, List.dropWhile_append_of_pos hback,
        ← trimStart, trimStart_of_head hlast, List.reverse_reverse]

end ThemeTokens.Text
