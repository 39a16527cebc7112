import Findings.Proofs.Text
import Findings.Report.Layout

/-!
# The caret under a line

A source line is shown with two blanks for every tab, and below it a caret. Both widen the same
characters, so the caret stands under the column that it is for, whatever stands before it.

* `widenTabs_eq_intercalate`: two blanks for every tab, and all else as it is.
* `caretIndent_eq`: the caret is as far in as the text before its column is long when it is shown.
* `pointsAt_caretBlock`: the two lines, and what the caret points at.
-/

namespace Findings.Layout

open Text

variable {line : List Char}

/-! ## Tabs -/

theorem widenTabs_append (a b : List Char) : widenTabs (a ++ b) = widenTabs a ++ widenTabs b :=
  List.flatMap_append

theorem length_widenTabs (line : List Char) :
    (widenTabs line).length = line.length + line.count '\t' := by
  induction line with
  | nil => rfl
  | cons c line ih =>
    rw [← List.singleton_append, widenTabs_append, List.length_append, ih]
    by_cases hc : c = '\t'
    · simp [widenTabs, hc]
      omega
    · simp [widenTabs, hc]
      omega

/-- The pieces of a line between its tabs, with two blanks between each two. -/
theorem widenTabs_eq_intercalate (line : List Char) :
    widenTabs line = [' ', ' '].intercalate (splitAt '\t' line) := by
  induction line with
  | nil => rfl
  | cons c line ih =>
    rw [← List.singleton_append, widenTabs_append, ih]
    by_cases hc : c = '\t'
    · rw [hc, List.singleton_append, splitAt, if_pos rfl,
        List.intercalate_cons_of_ne_nil (splitAt_ne_nil _ _)]
      rfl
    · rw [List.singleton_append, splitAt, if_neg hc]
      cases hs : splitAt '\t' line with
      | nil => exact absurd hs (splitAt_ne_nil _ _)
      | cons piece pieces => simp [widenTabs, hc]

theorem newline_not_mem_widenTabs (h : '\n' ∉ line) : '\n' ∉ widenTabs line := by
  rw [widenTabs, List.mem_flatMap]
  rintro ⟨c, hc, hm⟩
  split at hm
  · simp at hm
  · exact h (List.mem_singleton.1 hm ▸ hc)

/-! ## The caret -/

/-- How long the text before a column is when it is shown. Behind the end of a line there is no more
text. -/
def widthBefore (line : List Char) (col : Nat) : Nat :=
  (widenTabs (line.take (min (col - 1) line.length))).length

theorem caretIndent_eq (line : List Char) (col : Nat) :
    caretIndent line col = widthBefore line col := by
  rw [widthBefore, length_widenTabs, ← List.take_eq_take_min]
  rfl

/-- A caret below a line points at a column of it. -/
structure PointsAt (line : String) (col : Nat) : Prop where
  /-- The line is shown with two blanks in the place of each tab. -/
  widens : widenTabs line.toList = [' ', ' '].intercalate (splitAt '\t' line.toList)
  /-- There are two lines, and the second one has blanks below what is before the column. -/
  lines : segments (caretBlock line col).toList =
    [widenTabs line.toList, List.replicate (widthBefore line.toList col) ' ' ++ ['^']]
  /-- Nothing is before column 0. -/
  zero : col = 0 → widthBefore line.toList col = 0
  /-- The caret is at most one place behind the line. -/
  inside : widthBefore line.toList col ≤ (widenTabs line.toList).length
  /-- Above the caret is the character of the column, or the first of the blanks of a tab. -/
  above : ∀ c, 1 ≤ col → line.toList[col - 1]? = some c →
    (if c = '\t' then [' ', ' '] else [c]) <+:
      (widenTabs line.toList).drop (widthBefore line.toList col)

/-- Whatever is in a line, the caret below it points at the column that it is for. -/
theorem pointsAt_caretBlock (line : String) (col : Nat) (h : '\n' ∉ line.toList) :
    PointsAt line col where
  widens := widenTabs_eq_intercalate line.toList
  lines := by
    have hcaret : '\n' ∉ List.replicate (caretIndent line.toList col) ' ' ++ ['^'] := by
      simp [List.mem_replicate]
    rw [caretBlock, String.toList_ofList, caretBlockChars, List.append_assoc, List.cons_append,
      segments_append (newline_not_mem_widenTabs h), segments, splitAt_of_not_mem hcaret,
      caretIndent_eq]
  zero := by
    rintro rfl
    rw [widthBefore, Nat.zero_min, List.take_zero]
    rfl
  inside := by
    conv_rhs => rw [← List.take_append_drop (min (col - 1) line.toList.length) line.toList]
    rw [widenTabs_append, List.length_append]
    exact Nat.le_add_right _ _
  above := by
    intro c hcol hc
    obtain ⟨hlt, rfl⟩ := List.getElem?_eq_some_iff.1 hc
    have hline : widenTabs line.toList = widenTabs (line.toList.take (col - 1)) ++
        (widenTabs [line.toList[col - 1]] ++ widenTabs (line.toList.drop (col - 1 + 1))) := by
      rw [← widenTabs_append, ← widenTabs_append, List.singleton_append,
        ← List.drop_eq_getElem_cons hlt, List.take_append_drop]
    rw [widthBefore, ← List.take_eq_take_min, hline, List.drop_left]
    rw [widenTabs, List.flatMap_singleton]
    exact List.prefix_append _ _

/-- A tab before the column and one at the column, and a character of two bytes between them. -/
theorem pointsAt_caretBlock_tabs :
    '\n' ∉ "\té\tx".toList ∧ PointsAt "\té\tx" 3 ∧
      caretBlock "\té\tx" 3 = "  é  x\n   ^" := by
  have h : '\n' ∉ "\té\tx".toList := by decide
  exact ⟨h, pointsAt_caretBlock "\té\tx" 3 h, by decide⟩

end Findings.Layout
