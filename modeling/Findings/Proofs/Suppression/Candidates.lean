import Findings.Proofs.Source.File
import Findings.Proofs.Suppression.Comment
import Findings.Suppression.Marker

/-!
# The lines that can hold a marker, against the scanner

A finding's marker is looked for on its line and in the comments directly above. The classification
finds these lines as the scanner does as long as it knows, above each line, which lines end in a
block.

* `scanLines_take_eq_iff`: the first lines of a text are classified as the scanner reads them iff
  it agrees on all of them but the last.
* `candidateLines_eq_iff`: the same for the lines that are looked at for each line of a file.
  `Line.agrees_iff_of_plain` says which lines these are.
* `candidateLines_beyond_code`: a marker that is found beyond a line of code.
-/

namespace Findings.Scanner

open Text CommentStyle SourceFile

variable {mode : Mode} {text : List Char} {style : CommentStyle} {b : Bool}

/-- Line `n` of a text and, the nearest first, the lines right above it that hold only comments, as
the scanner reads them. -/
def candidates (text : List Char) (n : Nat) : List ScannedLine :=
  match ((lines text).take n).reverse with
  | [] => []
  | reported :: above => (reported :: above.takeWhile Line.commentOnly).map Line.scanned

/-! ## Line by line -/

theorem length_linesFrom (mode : Mode) (text : List Char) :
    (linesFrom mode text).length = (segments text).length := by
  induction text using induction_on_lines generalizing mode with
  | last line h => rw [linesFrom_of_not_mem h, segments, splitAt_of_not_mem h]; rfl
  | step line rest h ih =>
    rw [linesFrom_append h, segments_append h, List.length_cons, List.length_cons, ih]

/-- Reading a line shows it and flags it as classification does, wherever it starts. -/
theorem scanLines_cons {line : List Char} (hm : mode ≠ .lineComment) (h : '\n' ∉ line)
    (texts : List (List Char)) :
    scanLines .slashes (mode = .block) (dropEnd isLineEnd line :: texts) =
      (readLine mode line).scanned ::
        scanLines .slashes (classify .slashes (dropEnd isLineEnd line) (mode = .block)).endsInBlock
          texts := by
  have hshown : (scan mode line).map Prod.fst = line := map_fst_scan mode line
  rw [scanLines, classify_eq hm h (trim_dropEnd_isLineEnd line), Line.scanned, readLine, hshown]

theorem startsInBlock_linesFrom (mode : Mode) (text : List Char) :
    (linesFrom mode text).head?.map Line.startsInBlock = some (decide (mode = .block)) := by
  induction text using induction_on_lines with
  | last line h => rw [linesFrom_of_not_mem h]; rfl
  | step line rest h _ => rw [linesFrom_append h]; rfl

/-- Lines read alike start alike. -/
theorem eq_of_scanLines_eq {n : Nat}
    (h : scanLines style b (((segments text).map (dropEnd isLineEnd)).take (n + 1)) =
      ((linesFrom mode text).take (n + 1)).map Line.scanned) : b = decide (mode = .block) := by
  have hflag := startsInBlock_linesFrom mode text
  obtain ⟨first, segs, hs⟩ := List.exists_cons_of_ne_nil (segments_ne_nil text)
  cases hl : linesFrom mode text with
  | nil => simp [hl] at hflag
  | cons line ls =>
    rw [hl] at hflag h
    rw [hs] at h
    simp only [List.map_cons, List.take_succ_cons, scanLines, List.cons.injEq, Line.scanned,
      ScannedLine.mk.injEq] at h
    simpa [h.1.2.1] using hflag

theorem decide_carry (mode : Mode) : decide (carry mode = .block) = decide (mode = .block) := by
  cases mode <;> rfl

theorem carry_ne_lineComment (mode : Mode) : carry mode ≠ .lineComment := by
  cases mode <;> decide

/-- The first lines of a text are classified as the scanner reads them iff the delimiters of each
line above tell where it ends. -/
theorem scanLines_take_eq_iff (hm : mode ≠ .lineComment) {n : Nat}
    (hn : n ≤ (segments text).length) :
    scanLines .slashes (mode = .block) (((segments text).map (dropEnd isLineEnd)).take n) =
        ((linesFrom mode text).take n).map Line.scanned ↔
      ∀ line ∈ (linesFrom mode text).take (n - 1), line.Agrees := by
  induction text using induction_on_lines generalizing mode n with
  | last line h =>
    rw [segments, splitAt_of_not_mem h] at hn ⊢
    rw [linesFrom_of_not_mem h]
    obtain rfl | rfl : n = 0 ∨ n = 1 := by
      rw [List.length_singleton] at hn
      omega
    · simp [scanLines]
    · simp only [List.map_singleton, List.take_succ_cons, List.take_nil, scanLines_cons hm h]
      simp [scanLines, readLine]
  | step line rest h ih =>
    rw [segments_append h, List.length_cons] at hn
    rw [segments_append h, linesFrom_append h]
    cases n with
    | zero => simp [scanLines]
    | succ n =>
      rw [List.map_cons, List.take_succ_cons, List.take_succ_cons, scanLines_cons hm h,
        List.map_cons, Nat.add_sub_cancel]
      cases n with
      | zero => simp [scanLines, readLine]
      | succ n =>
        have hend := endsInBlock_classify_iff hm h (trim_dropEnd_isLineEnd line)
        have hrest := ih (carry_ne_lineComment (stop mode line)) (n := n + 1) (by omega)
        rw [decide_carry] at hrest
        rw [List.take_succ_cons, List.forall_mem_cons, List.cons.injEq]
        constructor
        · rintro ⟨-, htail⟩
          have hb := (eq_of_scanLines_eq htail).trans (decide_carry _)
          rw [hb] at htail
          exact ⟨hend.1 hb, hrest.1 htail⟩
        · rintro ⟨hline, hall⟩
          rw [hend.2 hline]
          exact ⟨rfl, hrest.2 hall⟩

/-! ## The lines of a file -/

/-- The last of some lines and, the nearest first, the lines right before it that hold only
comments. -/
def nearest (scanned : List ScannedLine) : List ScannedLine :=
  match scanned.reverse with
  | [] => []
  | reported :: above => reported :: above.takeWhile ScannedLine.commentOnly

theorem head?_nearest (scanned : List ScannedLine) :
    (nearest scanned).head? = scanned.getLast? := by
  rw [nearest, ← List.head?_reverse]
  cases scanned.reverse <;> rfl

theorem nearest_map_scanned (text : List Char) (n : Nat) :
    nearest (((lines text).take n).map Line.scanned) = candidates text n := by
  rw [nearest, candidates, ← List.map_reverse]
  cases ((lines text).take n).reverse with
  | nil => rfl
  | cons reported above =>
    simp only [List.map_cons, List.takeWhile_map]
    rfl

theorem candidateLines_eq_nil {source : SourceFile} {n : Nat}
    (h : n = 0 ∨ source.lineCount < n) : candidateLines style source n = [] := by
  rw [candidateLines, if_pos]
  rw [Bool.or_eq_true, decide_eq_true_eq, decide_eq_true_eq]
  exact h

theorem candidateLines_eq_nearest (source : SourceFile) {n : Nat} (h₁ : 1 ≤ n)
    (hn : n ≤ source.lineCount) :
    candidateLines style source n = nearest (scanLines style false
      (((segments source.content.toList).map (dropEnd isLineEnd)).take n)) := by
  have hrange : (n = 0 || decide (source.lineCount < n)) = false := by
    rw [Bool.or_eq_false_iff, decide_eq_false_iff_not, decide_eq_false_iff_not]
    omega
  rw [candidateLines, hrange, ← map_lineChars? source (hn.trans (lineCount_le source))]
  rfl

theorem scanLines_take (texts : List (List Char)) (n : Nat) :
    scanLines style b (texts.take n) = (scanLines style b texts).take n := by
  induction texts generalizing b n with
  | nil => simp [scanLines]
  | cons text texts ih =>
    cases n with
    | zero => rfl
    | succ n => rw [List.take_succ_cons, scanLines, scanLines, List.take_succ_cons, ih]

theorem length_scanLines (texts : List (List Char)) :
    (scanLines style b texts).length = texts.length := by
  induction texts generalizing b with
  | nil => rfl
  | cons text texts ih => rw [scanLines, List.length_cons, List.length_cons, ih]

/-- Lists are alike up to some length if their starts end alike. -/
theorem take_eq_take_of_getLast? {α : Type} {xs ys : List α} {n : Nat} (hx : n ≤ xs.length)
    (hy : n ≤ ys.length)
    (h : ∀ i < n, (xs.take (i + 1)).getLast? = (ys.take (i + 1)).getLast?) :
    xs.take n = ys.take n := by
  refine List.ext_getElem? fun i => ?_
  by_cases hi : i < n
  · have hlast := h i hi
    rw [List.getLast?_take, List.getLast?_take, if_neg (Nat.succ_ne_zero i),
      if_neg (Nat.succ_ne_zero i), Nat.add_sub_cancel, List.getElem?_eq_getElem (by omega),
      List.getElem?_eq_getElem (by omega)] at hlast
    rw [List.getElem?_take_of_lt hi, List.getElem?_take_of_lt hi,
      List.getElem?_eq_getElem (by omega), List.getElem?_eq_getElem (by omega)]
    exact hlast
  · rw [List.getElem?_eq_none (by rw [List.length_take]; omega),
      List.getElem?_eq_none (by rw [List.length_take]; omega)]

/-- For every line of a file the lines that can hold a marker are the comments right above it, as
the scanner reads them, iff the delimiters of all lines but the last tell where these end. -/
theorem candidateLines_eq_iff (source : SourceFile) :
    (∀ n, 1 ≤ n → n ≤ source.lineCount →
        candidateLines .slashes source n = candidates source.content.toList n) ↔
      ∀ line ∈ (lines source.content.toList).take (source.lineCount - 1), line.Agrees := by
  have hcount := lineCount_le source
  have hlines : (lines source.content.toList).length = (segments source.content.toList).length :=
    length_linesFrom .code source.content.toList
  have hread {n : Nat} (hn : n ≤ source.lineCount) := scanLines_take_eq_iff
    code_ne_lineComment (hn.trans hcount)
  constructor
  · intro h
    refine (hread (Nat.le_refl _)).1 ?_
    rw [← lines_eq_linesFrom, scanLines_take, List.map_take]
    refine take_eq_take_of_getLast? ?_ ?_ fun i hi => ?_
    · rwa [length_scanLines, List.length_map]
    · rwa [List.length_map, hlines]
    · have hcandidates := h (i + 1) (Nat.succ_pos i) hi
      rw [candidateLines_eq_nearest source (Nat.succ_pos i) hi, ← nearest_map_scanned,
        scanLines_take] at hcandidates
      rw [← head?_nearest, ← head?_nearest, ← List.map_take, ← hcandidates]
      rfl
  · intro h n h₁ hn
    have hall : ∀ line ∈ (linesFrom .code source.content.toList).take (n - 1), line.Agrees := by
      intro line hline
      exact h line (List.take_subset_take_left _ (Nat.sub_le_sub_right hn 1) hline)
    rw [candidateLines_eq_nearest source h₁ hn, ← nearest_map_scanned]
    exact congrArg nearest ((hread hn).2 hall)

/-- A link in a block comment is taken for a line comment. The block is never seen closed, so that
all lines below are comments and a marker reaches a finding beyond a line of code. -/
theorem candidateLines_beyond_code :
    let text := "int a; /* see http://x */\n// quell_suppress [all] old\nint b;\nint c;\n"
    let source := SourceFile.ofContent text
    4 ≤ source.lineCount ∧ candidateLines .slashes source 4 ≠ candidates text.toList 4 ∧
      (candidates text.toList 4).map ScannedLine.commentOnly = [false] ∧
      (markerFor? .slashes source 4 "h" "k").isSome := by
  decide +kernel

end Findings.Scanner
