import Findings.Proofs.Suppression.Candidates

/-!
# Markers when code moves

Lines that are put above a source move its lines down. Its markers move with them if the lines above
leave no block open, and the last of them is not a comment that the code below could have a marker
in.

* `classify_congr`: what is around a line does not matter to how it is classified.
* `scanLines_append`: lines are scanned after others as what these leave open says.
* `candidateLines_shift`: the lines that can hold a marker move with the code.
* `inlineSuppression_shift`: and so do the markers.
-/

namespace Findings

open Text Scanner

variable {style : CommentStyle} {inBlock : Bool}

/-! ## Classifying lines in order -/

namespace CommentStyle

/-- Any bound that is large enough does to peel the comments off a text. -/
theorem classifyFrom_congr_bound {bound bound' : Nat} {seen : Bool} {cs : List Char}
    (h : cs.length + inBlock.toNat < bound) (h' : cs.length + inBlock.toNat < bound') :
    classifyFrom style bound inBlock seen cs = classifyFrom style bound' inBlock seen cs := by
  induction bound generalizing bound' inBlock seen cs with
  | zero => omega
  | succ bound ih =>
    obtain ⟨bound', rfl⟩ : ∃ b, bound' = b + 1 := ⟨bound' - 1, by omega⟩
    cases inBlock with
    | true =>
      rw [Bool.toNat_true] at h h'
      rw [classifyFrom, classifyFrom]
      cases hc : cut? blockClose cs with
      | none => rfl
      | some parts =>
        have hlen := length_trimStart_of_cut? hc
        simp only [blockClose, List.length_cons, List.length_nil] at hlen
        exact ih (by rw [Bool.toNat_false]; omega) (by rw [Bool.toNat_false]; omega)
    | false =>
      rw [Bool.toNat_false] at h h'
      rw [classifyFrom, classifyFrom]
      -- Only a block that opens goes on, behind its two characters.
      have hopen (hp : blockOpen.isPrefixOf cs = true) :
          classifyFrom style bound true seen (cs.drop 2) =
            classifyFrom style bound' true seen (cs.drop 2) := by
        have hlen := (List.isPrefixOf_iff_prefix.1 hp).length_le
        simp only [blockOpen, List.length_cons, List.length_nil] at hlen
        refine ih ?_ ?_ <;> (rw [Bool.toNat_true, List.length_drop]; omega)
      split
      · rfl
      · split
        · rfl
        · split
          · rename_i hp
            exact hopen (Bool.and_eq_true_iff.1 hp).2
          · rfl

/-- What is around a line does not matter to how it is classified. -/
theorem classify_congr {line line' : List Char} (h : trim line = trim line') :
    style.classify line inBlock = style.classify line' inBlock := by
  have hlen := length_trim_le line
  have hlen' := length_trim_le line'
  have hblock := Bool.toNat_le inBlock
  rw [classify, classify, h]
  exact classifyFrom_congr_bound (by rw [← h]; omega) (by omega)

/-- Whether a block is open after lines that are classified in order. -/
def blockAfter (style : CommentStyle) (inBlock : Bool) (texts : List (List Char)) : Bool :=
  texts.foldl (fun inBlock text => (style.classify text inBlock).endsInBlock) inBlock

end CommentStyle

open CommentStyle

theorem scanLines_append (above texts : List (List Char)) :
    scanLines style inBlock (above ++ texts) =
      scanLines style inBlock above ++ scanLines style (style.blockAfter inBlock above) texts := by
  induction above generalizing inBlock with
  | nil => rfl
  | cons text above ih => simp only [List.cons_append, scanLines, ih]; rfl

/-- The carriage returns at the ends of lines do not matter to how they are classified. -/
theorem scanLines_map_dropEnd (style : CommentStyle) (inBlock : Bool) (texts : List (List Char)) :
    (scanLines style inBlock (texts.map (dropEnd SourceFile.isLineEnd))).map
        ScannedLine.commentOnly = (scanLines style inBlock texts).map ScannedLine.commentOnly ∧
      style.blockAfter inBlock (texts.map (dropEnd SourceFile.isLineEnd)) =
        style.blockAfter inBlock texts := by
  induction texts generalizing inBlock with
  | nil => exact ⟨rfl, rfl⟩
  | cons text texts ih =>
    have hcls : style.classify (dropEnd SourceFile.isLineEnd text) inBlock =
        style.classify text inBlock := classify_congr (SourceFile.trim_dropEnd_isLineEnd text)
    simp only [List.map_cons, scanLines, blockAfter, List.foldl_cons, hcls]
    exact ⟨congrArg _ (ih _).1, (ih _).2⟩

/-! ## The lines of a source below others -/

theorem nearest_concat (above : List ScannedLine) (reported : ScannedLine) :
    nearest (above ++ [reported]) =
      reported :: above.reverse.takeWhile ScannedLine.commentOnly := by
  rw [nearest, List.reverse_append]
  rfl

/-- The lines that can hold a marker do not go beyond one that is not a comment. -/
theorem nearest_append {above scanned : List ScannedLine} (hne : scanned ≠ [])
    (hlast : ∀ line ∈ above.getLast?, line.commentOnly = false) :
    nearest (above ++ scanned) = nearest scanned := by
  obtain ⟨before, reported, rfl⟩ := (List.eq_nil_or_concat scanned).resolve_left hne
  have hnone : above.reverse.takeWhile ScannedLine.commentOnly = [] := by
    rw [← List.head?_reverse] at hlast
    cases hr : above.reverse with
    | nil => rfl
    | cons line rest =>
      rw [List.takeWhile_cons_of_neg]
      simp [hlast line (by simp [hr])]
  rw [List.concat_eq_append, ← List.append_assoc, nearest_concat, nearest_concat,
    List.reverse_append, List.takeWhile_append, hnone, List.append_nil]
  split
  · rename_i hall
    rw [(List.takeWhile_prefix _).eq_of_length hall]
  · rfl

/-- An empty source has no markers. -/
theorem markerFor?_of_empty {source : SourceFile} (h : source.content.toList = []) (n : Nat)
    (hash checker : String) : markerFor? style source n hash checker = none := by
  by_cases hn : n = 0 ∨ source.lineCount < n
  · rw [markerFor?, candidateLines_eq_nil hn]
    rfl
  · obtain ⟨i, rfl⟩ := Nat.exists_eq_succ_of_ne_zero (mt Or.inl hn)
    rw [markerFor?, candidateLines_eq_nearest source (by omega) (by omega), h]
    cases i <;> rfl

section

variable {above : List (List Char)} {source shifted : SourceFile} {n : Nat}
  (habove : ∀ line ∈ above, '\n' ∉ line)
  (hcontent : shifted.content = .ofList (terminated above) ++ source.content)
include habove hcontent

theorem segments_shifted :
    segments shifted.content.toList = above ++ segments source.content.toList := by
  rw [hcontent, String.toList_append, String.toList_ofList, segments_terminated_append habove]

/-- The lines above a source that is not empty are counted in front of its lines. -/
theorem lineCount_shifted (hne : source.content.toList ≠ []) :
    shifted.lineCount = source.lineCount + above.length := by
  have hlast : shifted.content.toList.getLast? = source.content.toList.getLast? := by
    rw [hcontent, String.toList_append, List.getLast?_append_of_ne_nil _ hne]
  have hpos := List.length_pos_iff.2 (segments_ne_nil source.content.toList)
  rw [SourceFile.lineCount, SourceFile.lineCount, hlast, SourceFile.segments_length,
    SourceFile.segments_length, segments_shifted habove hcontent, List.length_append]
  split <;> omega

/-- Nothing is a line below the lines above an empty source. -/
theorem lineCount_shifted_of_empty (he : source.content.toList = []) (hne : above ≠ []) :
    shifted.lineCount = above.length := by
  have hlast : shifted.content.toList.getLast? = some '\n' := by
    obtain ⟨before, line, rfl⟩ := (List.eq_nil_or_concat above).resolve_left hne
    rw [hcontent, String.toList_append, he]
    simp [terminated]
  rw [SourceFile.lineCount, if_pos hlast, SourceFile.segments_length,
    segments_shifted habove hcontent, he, List.length_append]
  rfl

variable (hopen : style.blockAfter false above = false)
  (hlast : ∀ line ∈ (scanLines style false above).getLast?, line.commentOnly = false)
include hopen hlast

/-- The lines that can hold a marker move with the code. -/
theorem candidateLines_shift (hne : source.content.toList ≠ []) (h₁ : 1 ≤ n)
    (hn : n ≤ source.lineCount) :
    candidateLines style shifted (n + above.length) = candidateLines style source n := by
  have hcount := lineCount_shifted habove hcontent hne
  obtain ⟨hflags, hblock⟩ := scanLines_map_dropEnd style false above
  have hend : ∀ line ∈ (scanLines style false (above.map (dropEnd SourceFile.isLineEnd))).getLast?,
      line.commentOnly = false := by
    intro line hline
    have hmap := congrArg List.getLast? hflags
    rw [List.getLast?_map, List.getLast?_map, hline, Option.map_some] at hmap
    obtain ⟨other, hother, he⟩ := Option.map_eq_some_iff.1 hmap.symm
    rw [← he, hlast other hother]
  have htake : (((above ++ segments source.content.toList).map
      (dropEnd SourceFile.isLineEnd)).take (n + above.length)) =
        above.map (dropEnd SourceFile.isLineEnd) ++
          ((segments source.content.toList).map (dropEnd SourceFile.isLineEnd)).take n := by
    rw [List.map_append, Nat.add_comm, ← List.length_map (dropEnd SourceFile.isLineEnd)]
    exact List.take_length_add_append n
  rw [candidateLines_eq_nearest shifted (by omega) (by omega),
    candidateLines_eq_nearest source h₁ hn, segments_shifted habove hcontent, htake,
    scanLines_append, hblock, hopen]
  refine nearest_append ?_ hend
  have hle := SourceFile.lineCount_le source
  rw [ne_eq, ← List.length_eq_zero_iff, length_scanLines, List.length_take, List.length_map]
  omega

/-- So do the markers. -/
theorem markerFor?_shift (h₁ : 1 ≤ n) (hn : n ≤ source.lineCount) (hash checker : String) :
    markerFor? style shifted (n + above.length) hash checker =
      markerFor? style source n hash checker := by
  by_cases hne : source.content.toList = []
  · have hshifted : markerFor? style shifted (n + above.length) hash checker = none := by
      by_cases ha : above = []
      · refine markerFor?_of_empty ?_ _ hash checker
        rw [hcontent, ha, String.toList_append, hne]
        rfl
      · have hcount := lineCount_shifted_of_empty habove hcontent hne ha
        rw [markerFor?, candidateLines_eq_nil (.inr (by omega))]
        rfl
    rw [hshifted, markerFor?_of_empty hne]
  · rw [markerFor?, markerFor?, candidateLines_shift habove hcontent hopen hlast hne h₁ hn]

end

/-- Lines above a source that leave no block open, the last of which is not a comment, do not matter
to the suppression that the source asks for. -/
theorem inlineSuppression_shift {above : List (List Char)} (habove : ∀ line ∈ above, '\n' ∉ line)
    {path : String} (hopen : (CommentStyle.ofPath path).blockAfter false above = false)
    (hlast : ∀ line ∈ (scanLines (.ofPath path) false above).getLast?, line.commentOnly = false)
    {source shifted : SourceFile}
    (hcontent : shifted.content = .ofList (terminated above) ++ source.content)
    {sources sources' : SourceCache} {fs fs' : FileSystem}
    (hsource : (sources.file fs path).1 = some source)
    (hshifted : (sources'.file fs' path).1 = some shifted)
    {n : Nat} (h₁ : 1 ≤ n) (hn : n ≤ source.lineCount) (hash checker : String) :
    (inlineSuppression sources' fs' path (n + above.length) hash checker).1 =
      (inlineSuppression sources fs path n hash checker).1 := by
  simp only [inlineSuppression, hsource, hshifted, Option.bind_eq_bind, Option.bind_some,
    markerFor?_shift habove hcontent hopen hlast h₁ hn]

/-- A header whose last line has code behind the end of a comment. -/
theorem inlineSuppression_shift_header :
    let above := ["#pragma once /* see\r".toList, " * the manual */ int a;\r".toList]
    let s := "// quell_suppress [k] checked\nint b;"
    let cache (content : String) := SourceCache.empty.add "src/a.c" content
    let fs := FileSystem.empty []
    (CommentStyle.ofPath "src/a.c").blockAfter false above = false ∧
    (∀ line ∈ (scanLines (.ofPath "src/a.c") false above).getLast?, line.commentOnly = false) ∧
    (inlineSuppression (cache (.ofList (terminated above) ++ s)) fs "src/a.c" 4 "h" "k").1 =
      (inlineSuppression (cache s) fs "src/a.c" 2 "h" "k").1 ∧
    (inlineSuppression (cache s) fs "src/a.c" 2 "h" "k").1 = some ⟨"h", "a.c", "checked"⟩ := by
  intro above s cache fs
  have habove : ∀ line ∈ above, '\n' ∉ line := by decide
  have hopen : (CommentStyle.ofPath "src/a.c").blockAfter false above = false := by decide
  have hlast : ∀ line ∈ (scanLines (.ofPath "src/a.c") false above).getLast?,
      line.commentOnly = false := by decide
  refine ⟨hopen, hlast, ?_, by decide +kernel⟩
  have hcontent : (SourceFile.ofContent (.ofList (terminated above) ++ s)).content =
      .ofList (terminated above) ++ (SourceFile.ofContent s).content := rfl
  exact inlineSuppression_shift habove hopen hlast hcontent (SourceCache.file_add_self _ _ _ _)
    (SourceCache.file_add_self _ _ _ _) (by decide) (by decide) "h" "k"

end Findings
