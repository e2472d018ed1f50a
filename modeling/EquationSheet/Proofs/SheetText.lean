import EquationSheet.Proofs.CleanSlots

/-!
# Sheets as texts

A line feed between two texts separates their lines, whatever stands at its sides: behind a carriage
return both end one line, and otherwise what comes in between is at most a blank line. So a sheet has
the slots of the texts it was joined from, one text after the other.

* `exists_blank_lines_append`: the lines on both sides of a line feed, and what stands between them.
* `split_lineFeed`, `split_join_flatMap`: **a sheet has the slots of its parts.**
* `flatMap_split_eq_iff`, `split_eq_singleton_iff`: the clean texts are those that are their own only
  slots.
* `split_join_eq_iff`: slots survive their sheet exactly if they are clean.
-/

namespace EquationSheet

open Text

/-! ### Lines around a line feed -/

namespace Text

/-- Only the empty text has no lines. -/
theorem lines_eq_nil_iff {t : Text} : lines t = [] ↔ t = [] := by
  refine ⟨fun h => ?_, fun h => by rw [h, lines]⟩
  cases t using lines.fun_cases with
  | case1 => rfl
  | case2 rest => simp [lines] at h
  | case3 c rest hno hc =>
    rw [lines, if_pos hc] at h
    · simp at h
    · exact hno
  | case4 c rest hno hc =>
    rw [lines, if_neg hc] at h
    · cases hrest : lines rest <;> simp [hrest, consToFirst] at h
    · exact hno

/-- The lines in front of a line feed and those behind it are lines of the whole. Between them stands
a blank line where the line feed ends a line of its own. -/
theorem exists_blank_lines_append (a b : Text) : ∃ blank : List Text,
    (∀ line ∈ blank, line = []) ∧ lines (a ++ '\n' :: b) = lines a ++ (blank ++ lines b) := by
  -- the recursion of `lines` on the front text, which may end in a carriage return
  induction a using lines.induct with
  | case1 =>
    refine ⟨[[]], by simp, ?_⟩
    rw [List.nil_append, lines_cons (by decide)]
    rfl
  | case2 rest ih =>
    obtain ⟨blank, hblank, hlines⟩ := ih
    refine ⟨blank, hblank, ?_⟩
    simp only [List.cons_append, lines, hlines]
  | case3 c rest hno hc ih =>
    have hfront : lines (c :: rest) = [] :: lines rest := by
      rw [lines, if_pos hc]
      exact hno
    rw [hfront]
    by_cases hr : c = '\r' ∧ rest = []
    · -- the line feed belongs to the carriage return
      obtain ⟨rfl, rfl⟩ := hr
      exact ⟨[], by simp, by simp [lines]⟩
    · obtain ⟨blank, hblank, hlines⟩ := ih
      refine ⟨blank, hblank, ?_⟩
      have hwhole : lines (c :: (rest ++ '\n' :: b)) = [] :: lines (rest ++ '\n' :: b) := by
        rw [lines, if_pos hc]
        intro rest' hc' hrest'
        cases rest with
        | nil => exact hr ⟨hc', rfl⟩
        | cons d rest =>
          obtain ⟨rfl, -⟩ := List.cons.inj hrest'
          exact hno rest hc' rfl
      rw [List.cons_append, hwhole, hlines, List.cons_append]
  | case4 c rest hno hc ih =>
    have hr : c ≠ '\r' := by
      rintro rfl
      exact hc (by decide)
    have hcons : ∀ t, lines (c :: t) = consToFirst c (lines t) := by
      intro t
      rw [lines_cons hr, if_neg hc]
    rw [List.cons_append, hcons, hcons]
    cases hrest : lines rest with
    | nil =>
      -- the code point is the only one of its line, which the line feed ends
      obtain rfl := lines_eq_nil_iff.1 hrest
      refine ⟨[], by simp, ?_⟩
      rw [List.nil_append, lines_cons (by decide)]
      rfl
    | cons line more =>
      obtain ⟨blank, hblank, hlines⟩ := ih
      rw [hlines, hrest]
      exact ⟨blank, hblank, rfl⟩

end Text

/-! ### Slots -/

namespace Sheet

/-- The slots of a text, a line feed and another text are those of the one, then of the other. -/
theorem split_lineFeed (a b : Text) : split (a ++ '\n' :: b) = split a ++ split b := by
  obtain ⟨blank, hblank, hlines⟩ := exists_blank_lines_append a b
  have hnone : (blank.map trim).filter (fun slot => !slot.isEmpty) = [] := by
    rw [List.filter_eq_nil_iff]
    intro slot hslot
    obtain ⟨line, hline, rfl⟩ := List.mem_map.1 hslot
    rw [hblank line hline]
    decide
  unfold split
  rw [hlines]
  simp only [List.map_append, List.filter_append, hnone, List.nil_append]

/-- **A sheet has the slots of the texts it was joined from**, one text after the other. -/
theorem split_join_flatMap (slots : List Text) : split (join slots) = slots.flatMap split := by
  unfold join
  induction slots with
  | nil => decide
  | cons slot slots ih =>
    cases slots with
    | nil =>
      have hlast := split_lineFeed slot []
      simpa [joinWith, split, lines] using hlast
    | cons next slots =>
      have hfirst := split_lineFeed slot (joinWith ['\n'] (next :: slots) ++ ['\n'])
      simp only [joinWith, List.append_assoc, List.cons_append, List.nil_append,
        List.flatMap_cons] at hfirst ih ⊢
      rw [hfirst, ih]

/-- Clean texts are the slots of their texts, and no others are. -/
theorem flatMap_split_eq_iff {slots : List Text} :
    slots.flatMap split = slots ↔ ∀ slot ∈ slots, IsClean slot := by
  rw [← split_join_flatMap]
  refine ⟨fun hsame slot hslot => ?_, split_join⟩
  rw [← hsame] at hslot
  exact isClean_of_mem_split hslot

/-- **The clean texts** are those that are their own only slot. -/
theorem split_eq_singleton_iff {slot : Text} : split slot = [slot] ↔ IsClean slot := by
  rw [← List.forall_mem_singleton (p := IsClean), ← flatMap_split_eq_iff, List.flatMap_singleton]

/-- **Slots survive their sheet exactly if they are clean**: not empty, without whitespace at their
ends, and without line boundaries. All slots of a text are, so a sheet that is made from the slots of
a text has the same slots; and how the newlines of the text were read makes no difference. -/
theorem split_join_eq_iff (slots : List Text) (t : Text) :
    (split (join slots) = slots ↔ ∀ slot ∈ slots, IsClean slot) ∧
    (∀ slot ∈ split t, IsClean slot) ∧ split (join (split t)) = split t ∧
    split t.unifyNewlines = split t := by
  have hclean : ∀ slot ∈ split t, IsClean slot := fun slot hslot => isClean_of_mem_split hslot
  refine ⟨?_, hclean, split_join hclean, split_unifyNewlines t⟩
  rw [split_join_flatMap, flatMap_split_eq_iff]

/-- A sheet with blank lines and three kinds of newlines has two slots, which survive. A padded slot
does not survive. -/
theorem split_join_eq_iff_mixed :
    split (join (split "\"a\"=1mm \r\n\r \"b\"=2in\x85".toList)) =
      ["\"a\"=1mm".toList, "\"b\"=2in".toList] ∧
    split (join [" \"a\"=1mm".toList]) ≠ [" \"a\"=1mm".toList] := by
  obtain ⟨-, -, hsame, -⟩ := split_join_eq_iff [] "\"a\"=1mm \r\n\r \"b\"=2in\x85".toList
  obtain ⟨hiff, -⟩ := split_join_eq_iff [" \"a\"=1mm".toList] []
  refine ⟨by rw [hsame]; decide, fun h => ?_⟩
  have hclean := hiff.1 h " \"a\"=1mm".toList (by simp)
  have hspace : isWhitespace ' ' = false := hclean.trimmed.starts ' ' (by simp)
  exact absurd hspace (by decide)

end Sheet

end EquationSheet
