import Findings.Proofs.Text
import Findings.Source.File

/-!
# Lines of source files

The index of line starts against the text it was built from.

* `getElem?_lineStarts`: each line starts after those above it, with their line feeds.
* `lineChars?_succ`: a line found by the index is the text between two line feeds, without the
  carriage returns at its end.
* `lineCount_le`: every line counted is such a text.
-/

namespace Findings.SourceFile

open Text

/-! ## Line ends -/

theorem isBlank_of_isLineEnd {c : Char} (h : isLineEnd c = true) : isBlank c = true := by
  rw [isLineEnd, Bool.or_eq_true, decide_eq_true_eq, decide_eq_true_eq] at h
  rcases h with rfl | rfl <;> decide

theorem trim_dropEnd_isLineEnd (line : List Char) :
    trim (dropEnd isLineEnd line) = trim line := by
  obtain ⟨ends, he, hends⟩ := exists_append_dropEnd isLineEnd line
  conv_rhs => rw [he, trim_append fun c hc => isBlank_of_isLineEnd (hends c hc)]

/-- In a line only carriage returns are cut off. -/
theorem dropEnd_isLineEnd {line : List Char} (h : '\n' ∉ line) :
    dropEnd isLineEnd line = dropEnd (· = '\r') line := by
  have hmem : ∀ c ∈ line.reverse, isLineEnd c = decide (c = '\r') := by
    intro c hc
    have hn : c ≠ '\n' := fun he => h (he ▸ List.mem_reverse.1 hc)
    simp [isLineEnd, hn]
  unfold dropEnd
  congr 1
  generalize line.reverse = cs at hmem ⊢
  induction cs with
  | nil => rfl
  | cons c cs ih =>
    rw [List.forall_mem_cons] at hmem
    rw [List.dropWhile_cons, List.dropWhile_cons, hmem.1, ih hmem.2]

/-! ## Where lines start -/

/-- The positions just after the separators of a list that starts at position `start`. -/
def startsAfter {α : Type} [DecidableEq α] (sep : α) (start : Nat) : List α → List Nat
  | [] => []
  | a :: as =>
    if a = sep then (start + 1) :: startsAfter sep (start + 1) as
    else startsAfter sep (start + 1) as

theorem lineStartsAfter_eq (start : Nat) (cs : List Char) :
    lineStartsAfter start cs = startsAfter '\n' start cs := by
  induction cs generalizing start with
  | nil => rfl
  | cons c cs ih => rw [lineStartsAfter, startsAfter, ih]

section

variable {α : Type} [DecidableEq α] {sep : α}

theorem startsAfter_append {as : List α} (h : sep ∉ as) (start : Nat) (rest : List α) :
    startsAfter sep start (as ++ rest) = startsAfter sep (start + as.length) rest := by
  induction as generalizing start with
  | nil => rfl
  | cons a as ih =>
    rw [List.mem_cons, not_or] at h
    rw [List.cons_append, startsAfter, if_neg (Ne.symm h.1), ih h.2, List.length_cons]
    congr 1
    omega

/-- In a text whose line feeds are written as separators, a line starts where the lines above it
end. -/
theorem getElem?_startsAfter (sep : α) (encode : Char → List α) (hsep : encode '\n' = [sep])
    (hother : ∀ c, c ≠ '\n' → sep ∉ encode c) (start : Nat) (text : List Char) (i : Nat) :
    (start :: startsAfter sep start (text.flatMap encode))[i]? =
      if i < (segments text).length then
        some (start + ((terminated ((segments text).take i)).flatMap encode).length)
      else none := by
  have hline {line : List Char} (h : '\n' ∉ line) : sep ∉ line.flatMap encode := by
    intro hm
    obtain ⟨c, hc, hs⟩ := List.mem_flatMap.1 hm
    exact hother c (fun he => h (he ▸ hc)) hs
  induction text using induction_on_lines generalizing start i with
  | last line h =>
    have hnone : startsAfter sep start (line.flatMap encode) = [] := by
      simpa [startsAfter] using startsAfter_append (hline h) start []
    rw [hnone, segments, splitAt_of_not_mem h]
    cases i <;> simp [terminated]
  | step line rest h ih =>
    have hstarts : startsAfter sep start ((line ++ '\n' :: rest).flatMap encode) =
        (start + (line.flatMap encode).length + 1) ::
          startsAfter sep (start + (line.flatMap encode).length + 1) (rest.flatMap encode) := by
      rw [List.flatMap_append, List.flatMap_cons, hsep, startsAfter_append (hline h),
        List.singleton_append, startsAfter, if_pos rfl]
    rw [hstarts, segments_append h]
    cases i with
    | zero => simp [terminated]
    | succ i =>
      have hlength (above : List (List Char)) :
          ((terminated (line :: above)).flatMap encode).length =
            (line.flatMap encode).length + 1 + ((terminated above).flatMap encode).length := by
        rw [← List.append_nil (terminated (line :: above)), terminated_cons_append]
        simp [hsep]
        omega
      rw [List.getElem?_cons_succ, ih, List.take_succ_cons, hlength, List.length_cons]
      simp only [Nat.add_lt_add_iff_right]
      split
      · congr 1
        omega
      · rfl

end

/-- A line starts where the lines above it end. -/
theorem getElem?_lineStarts (file : SourceFile) (i : Nat) :
    file.lineStarts[i]? =
      if i < (segments file.content.toList).length then
        some (terminated ((segments file.content.toList).take i)).length
      else none := by
  have hsep : ∀ c : Char, c ≠ '\n' → '\n' ∉ [c] := fun c hc => by simpa using hc.symm
  have h := getElem?_startsAfter '\n' (fun c => [c]) rfl hsep 0 file.content.toList i
  simp only [List.flatMap_singleton', Nat.zero_add, ← lineStartsAfter_eq] at h
  rw [file.lineStarts_eq, List.getElem?_toArray]
  exact h

theorem segments_length (file : SourceFile) :
    file.lineStarts.size = (segments file.content.toList).length := by
  rw [file.lineStarts_eq, segments, length_splitAt, ← length_lineStartsAfter 0]
  rfl

theorem lineCount_le (file : SourceFile) :
    file.lineCount ≤ (segments file.content.toList).length := by
  rw [lineCount, segments_length]
  split <;> omega

section Line

variable (file : SourceFile) {i : Nat} (hi : i < (segments file.content.toList).length)
include hi

/-- Only after a line feed at the end of the text, a line is not counted. -/
theorem lt_lineCount_iff {rest : List Char}
    (he : file.content.toList =
      terminated ((segments file.content.toList).take i) ++
        ((segments file.content.toList)[i] ++ rest))
    (hr : i + 1 = (segments file.content.toList).length ∧ rest = [] ∨
      i + 1 < (segments file.content.toList).length ∧ ∃ more, rest = '\n' :: more) :
    i < file.lineCount ↔ ((segments file.content.toList)[i] ++ rest = [] → i = 0) := by
  rw [lineCount, segments_length]
  obtain ⟨hlast, rfl⟩ | ⟨hlt, more, rfl⟩ := hr
  · rw [List.append_nil] at he ⊢
    have hline : '\n' ∉ (segments file.content.toList)[i] :=
      sep_not_mem_of_mem_splitAt (List.getElem_mem hi)
    generalize (segments file.content.toList)[i] = line at he hline ⊢
    generalize segments file.content.toList = pieces at hi he hlast ⊢
    rw [he]
    rcases List.eq_nil_or_concat line with rfl | ⟨init, c, rfl⟩
    · cases i with
      | zero => simp [terminated, ← hlast]
      | succ i =>
        rw [terminated_take_succ (Nat.lt_of_succ_lt hi), List.append_nil, ← List.append_assoc,
          List.getLast?_concat, if_pos rfl, ← hlast]
        simp
    · have hc : c ≠ '\n' := by
        rintro rfl
        simp at hline
      rw [List.concat_eq_append, ← List.append_assoc, List.getLast?_concat,
        if_neg (by simpa using hc)]
      simp [hi]
  · simp only [List.append_eq_nil_iff, List.cons_ne_nil, and_false, false_implies, iff_true]
    split <;> omega

/-- The index cuts a line out of the text, with its line feed if there is one. -/
theorem exists_extract :
    ∃ start ends, file.lineStarts[i]? = some start ∧
      (i < file.lineCount ↔ ¬(file.chars.size ≤ start ∧ i ≠ 0)) ∧
      (file.chars.extract start ((file.lineStarts[i + 1]?).getD file.chars.size)).toList =
        (segments file.content.toList)[i] ++ ends ∧
      ∀ c ∈ ends, isLineEnd c = true := by
  obtain ⟨rest, he, hr⟩ := exists_eq_terminated_append file.content.toList hi
  have hcount := lt_lineCount_iff file hi he hr
  have hstart := getElem?_lineStarts file i
  have hnext := getElem?_lineStarts file (i + 1)
  have hlength := congrArg List.length he
  have hdrop := congrArg (List.drop (terminated ((segments file.content.toList).take i)).length) he
  rw [if_pos hi] at hstart
  rw [List.length_append] at hlength
  rw [List.drop_left] at hdrop
  have hsize : file.chars.size = file.content.toList.length := by
    rw [file.chars_eq, List.size_toArray]
  have hextract (start stop : Nat) : (file.chars.extract start stop).toList =
      (file.content.toList.drop start).take (stop - start) := by
    rw [file.chars_eq, List.extract_toArray, List.extract_eq_take_drop]
  have hpast : i < file.lineCount ↔
      ¬(file.chars.size ≤ (terminated ((segments file.content.toList).take i)).length ∧ i ≠ 0) := by
    rw [hcount, hsize, hlength, ← List.length_eq_zero_iff]
    omega
  obtain ⟨hlast, rfl⟩ | ⟨hlt, more, rfl⟩ := hr
  · rw [if_neg (by omega)] at hnext
    refine ⟨_, [], hstart, hpast, ?_, List.forall_mem_nil _⟩
    rw [hnext, Option.getD_none, hextract, hdrop, hsize, hlength, Nat.add_sub_cancel_left,
      List.take_length]
  · rw [if_pos hlt, terminated_take_succ hi, List.length_append] at hnext
    refine ⟨_, ['\n'], hstart, hpast, ?_, List.forall_mem_singleton.2 rfl⟩
    rw [hnext, Option.getD_some, hextract, hdrop, Nat.add_sub_cancel_left,
      List.append_cons _ '\n' more, List.take_left]

end Line

/-- A line that is counted is the text between two line feeds, without the carriage returns at its
end. -/
theorem lineChars?_succ (file : SourceFile) (i : Nat) :
    file.lineChars? (i + 1) =
      if i < file.lineCount then
        ((segments file.content.toList)[i]?).map (dropEnd isLineEnd)
      else none := by
  by_cases hi : i < (segments file.content.toList).length
  · obtain ⟨start, ends, hs, hc, hx, hends⟩ := exists_extract file hi
    simp only [lineChars?, hs, hx, dropEnd_append hends, Option.bind_eq_bind, Option.bind_some, hc,
      List.getElem?_eq_getElem hi, Option.map_some, Bool.and_eq_true, decide_eq_true_eq, ite_not]
  · have hnone : file.lineStarts[i]? = none := by rw [getElem?_lineStarts, if_neg hi]
    have hle := file.lineCount_le
    rw [if_neg (by omega)]
    simp only [lineChars?, hnone, Option.bind_eq_bind, Option.bind_none]

/-- What is not counted is empty. -/
theorem lineChars?_getD (file : SourceFile) {i : Nat}
    (hi : i < (segments file.content.toList).length) :
    (file.lineChars? (i + 1)).getD [] = dropEnd isLineEnd (segments file.content.toList)[i] := by
  rw [lineChars?_succ, List.getElem?_eq_getElem hi]
  split
  · rfl
  · rename_i hlt
    obtain ⟨rest, he, hr⟩ := exists_eq_terminated_append file.content.toList hi
    rw [lt_lineCount_iff file hi he hr] at hlt
    obtain ⟨hempty, -⟩ := Classical.not_imp.1 hlt
    rw [(List.append_eq_nil_iff.1 hempty).1]
    rfl

/-- The first lines of a file, in order. -/
theorem map_lineChars? (file : SourceFile) {n : Nat}
    (hn : n ≤ (segments file.content.toList).length) :
    ((List.range n).map fun i => (file.lineChars? (i + 1)).getD []) =
      ((segments file.content.toList).map (dropEnd isLineEnd)).take n := by
  refine List.ext_getElem (by simpa using (Nat.min_eq_left hn).symm) fun i hi hi' => ?_
  rw [List.length_map, List.length_range] at hi
  rw [List.getElem_map, List.getElem_range, List.getElem_take, List.getElem_map,
    lineChars?_getD file (Nat.lt_of_lt_of_le hi hn)]

end Findings.SourceFile
