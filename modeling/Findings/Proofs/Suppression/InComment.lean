import Findings.Proofs.Suppression.Candidates
import Findings.Proofs.Suppression.Marker

/-!
# Markers inside comments, against the scanner

A line gives its marker if the line starts in a block, or if some comment opens before the keyword.
Whether that comment is still open at the keyword, and where it ends, is not asked.

* `encloses_iff`: when a marker stands inside one comment, as the scanner reads its line.
* `encloses_readComment_iff`: and when the comment that is read with it is text of this comment.
* `inlineSuppression_inComment_iff`: what is found for a finding is read off the first keyword of a
  line, and lies in a comment iff this one does.
* `not_holdsMarker_closed`: a marker that is read behind the end of a comment, and one whose comment
  goes on in the code.
-/

namespace Findings.Scanner

open Text CommentStyle SourceFile Marker

variable {mode : Mode} {cs before marker list rest after : List Char}

namespace Line

/-- The characters of a line. -/
def text (line : Line) : List Char :=
  line.chars.map Prod.fst

/-- Where the scanner stands on a line, after some characters at its start. -/
def modeAt (line : Line) (before : List Char) : Mode :=
  stop (if line.startsInBlock then .block else .code) before

/-- The characters `inside`, which follow `before` on a line, stand inside one comment, which goes
on with `after` up to its end or that of the line. Comments have delimiters between them, so
characters in a row that are text of comments are text of one. -/
def Encloses (line : Line) (before inside after : List Char) : Prop :=
  ∃ a b, line.chars = a ++ (inside.map (·, .text) ++ b) ∧ a.map Prod.fst = before ∧
    (b.takeWhile fun p => p.2 = .text).map Prod.fst = after

/-- The scanner stands in a comment after `before`, and if that is a block, it is not closed in the
list of the marker there, and nothing but blanks follows its end in the rest of the line. -/
def KeepsMarker (line : Line) (before list rest : List Char) : Prop :=
  line.modeAt before ≠ .code ∧
    (line.modeAt before = .block → occurs blockClose list = false ∧
      ∀ within beyond, cut? blockClose rest = some (within, beyond) →
        ∀ c ∈ beyond, isBlank c = true)

end Line

/-! ## The text of a marker -/

theorem exists_cons_of_written (h : Written list marker) : ∃ tail, marker = 'q' :: tail := by
  obtain ⟨-, blanks, -, rfl⟩ := h
  exact ⟨keyword.tail ++ _, rfl⟩

theorem apart_of_written (h : Written list marker) (rest : List Char) : Apart (marker ++ rest) := by
  obtain ⟨tail, rfl⟩ := exists_cons_of_written h
  exact apart_cons (by decide) _

/-- A marker has the end of a block in its list or nowhere. -/
theorem occurs_blockClose_of_written (h : Written list marker) :
    occurs blockClose marker = occurs blockClose list := by
  obtain ⟨-, blanks, hb, rfl⟩ := h
  have hstart : '*' ∉ keyword ++ (blanks ++ ['[']) := by
    simp only [List.mem_append, not_or]
    exact ⟨by decide, fun hm => absurd (hb _ hm) (by decide), by decide⟩
  have hassoc : keyword ++ (blanks ++ '[' :: (list ++ [']'])) =
      keyword ++ (blanks ++ ['[']) ++ (list ++ [']']) := by simp
  rw [hassoc, blockClose, occurs_append_of_not_mem hstart, ← blockClose, Bool.eq_iff_iff,
    occurs_iff_isInfix, occurs_iff_isInfix, List.infix_concat_iff]
  refine or_iff_right ?_
  rintro ⟨start, hs⟩
  have hlast := congrArg List.getLast? hs
  simp [blockClose] at hlast

/-- Text without the end of a block that no such end can start in is text of the block. -/
theorem scan_block_append (h : occurs blockClose cs = false) (hrest : Apart rest) :
    scan .block (cs ++ rest) = cs.map (·, .text) ++ scan .block rest := by
  obtain ⟨hs, ht⟩ := scan_block_of_not_cut? (cut?_eq_none_iff.2 h)
  rw [(scan_append .block cs hrest).1, hs, ht]

/-- All of a marker is text of a comment iff the scanner stands in one before it, which is not a
block that is closed in its list. -/
theorem scan_written_iff (hw : Written list marker) (hn : '\n' ∉ marker ++ rest)
    {b : List (Char × Mark)} :
    scan mode (marker ++ rest) = marker.map (·, .text) ++ b ↔
      mode ≠ .code ∧ (mode = .block → occurs blockClose list = false) ∧ b = scan mode rest := by
  cases mode with
  | code =>
    obtain ⟨tail, rfl⟩ := exists_cons_of_written hw
    have hcode : scan .code ('q' :: (tail ++ rest)) = ('q', .code) :: scan .code (tail ++ rest) :=
      (scan_code_cons (isPrefixOf_cons_of_ne (by decide) _) (isPrefixOf_cons_of_ne (by decide) _)).1
    rw [List.cons_append, hcode]
    simp
  | lineComment =>
    have hr : '\n' ∉ rest := fun hm => hn (List.mem_append_right _ hm)
    rw [(scan_lineComment hn).1, (scan_lineComment hr).1, List.map_append,
      List.append_cancel_left_eq]
    exact ⟨fun h => ⟨by decide, by simp, h.symm⟩, fun h => h.2.2.symm⟩
  | block =>
    rw [← occurs_blockClose_of_written hw]
    cases hclose : occurs blockClose marker with
    | true =>
      obtain ⟨⟨within, beyond⟩, hcut⟩ := Option.isSome_iff_exists.1 hclose
      have hmarker := append_of_cut? hcut
      rw [(scan_block_of_cut? (cut?_append (by decide) hcut rest)).1, ← hmarker]
      simp [blockClose]
    | false =>
      obtain ⟨start, rfl⟩ : ∃ start, marker = start ++ [']'] := by
        obtain ⟨-, blanks, -, rfl⟩ := hw
        exact ⟨keyword ++ (blanks ++ '[' :: list), by simp⟩
      have hstart : occurs blockClose start = false := by
        cases ho : occurs blockClose start with
        | false => rfl
        | true =>
          have hin := (occurs_iff_isInfix.1 ho).trans (List.prefix_append start [']']).isInfix
          rw [← occurs_iff_isInfix, hclose] at hin
          cases hin
      have hnext : scan .block (']' :: rest) = (']', .text) :: scan .block rest :=
        (scan_block_cons (isPrefixOf_cons_of_ne (by decide) _)).1
      rw [List.append_assoc, List.singleton_append,
        scan_block_append hstart (apart_cons (by decide) rest), hnext, List.map_append,
        List.append_assoc, List.append_cancel_left_eq]
      simp only [List.map_cons, List.map_nil, List.singleton_append, List.cons.injEq, true_and]
      exact ⟨fun h => ⟨by decide, by simp, h.symm⟩, fun h => h.2.2.symm⟩

/-! ## A marker and its comment -/

/-- A marker stands inside one comment iff the scanner stands in a comment before it, which is not a
block that is closed in its list. -/
theorem encloses_iff (hw : Written list marker)
    (hn : '\n' ∉ before ++ (marker ++ rest)) :
    (readLine mode (before ++ (marker ++ rest))).Encloses before marker after ↔
      stop mode before ≠ .code ∧ (stop mode before = .block → occurs blockClose list = false) ∧
        ((scan (stop mode before) rest).takeWhile fun p => p.2 = .text).map Prod.fst = after := by
  have hn' : '\n' ∉ marker ++ rest := fun h => hn (List.mem_append_right _ h)
  have hscan := (scan_append mode before (apart_of_written hw rest)).1
  rw [Line.Encloses, readLine, hscan]
  constructor
  · rintro ⟨a, b, hab, ha, rfl⟩
    have hlen := congrArg List.length ((map_fst_scan mode before).trans ha.symm)
    rw [List.length_map, List.length_map] at hlen
    obtain ⟨-, hb⟩ := List.append_inj hab hlen
    obtain ⟨h₁, h₂, rfl⟩ := (scan_written_iff hw hn').1 hb
    exact ⟨h₁, h₂, rfl⟩
  · rintro ⟨h₁, h₂, h₃⟩
    refine ⟨scan mode before, scan (stop mode before) rest, ?_, map_fst_scan mode before, h₃⟩
    rw [(scan_written_iff hw hn').2 ⟨h₁, h₂, rfl⟩]

/-- The text of a comment goes on up to the first character that is none. -/
theorem takeWhile_text_append (cs : List Char) (marked : List (Char × Mark))
    (h : ∀ p ∈ marked.head?, p.2 ≠ .text) :
    ((cs.map (·, Mark.text) ++ marked).takeWhile fun p => p.2 = .text).map Prod.fst = cs := by
  have hstop : (marked.takeWhile fun p => p.2 = .text) = [] := by
    cases marked with
    | nil => rfl
    | cons p marked =>
      rw [List.takeWhile_cons_of_neg]
      simpa using h p rfl
  rw [List.takeWhile_append_of_pos (by simp), hstop, List.append_nil, List.map_map]
  exact List.map_id cs

/-- A marker stands inside one comment that the comment read with it is text of, iff the line keeps
it. -/
theorem encloses_readComment_iff (hm : mode ≠ .lineComment) (hw : Written list marker)
    (hn : '\n' ∉ before ++ (marker ++ rest)) :
    (∃ after, (readLine mode (before ++ (marker ++ rest))).Encloses before marker after ∧
        readComment rest <:+: after) ↔
      (readLine mode (before ++ (marker ++ rest))).KeepsMarker before list rest := by
  have hmode : (readLine mode (before ++ (marker ++ rest))).modeAt before = stop mode before := by
    cases mode with
    | lineComment => exact absurd rfl hm
    | code => rfl
    | block => rfl
  simp only [encloses_iff hw hn, Line.KeepsMarker, hmode, and_assoc, exists_and_left,
    exists_eq_left']
  refine and_congr_right fun hne => ?_
  cases hs : stop mode before with
  | code => exact absurd hs hne
  | lineComment =>
    have hr : '\n' ∉ rest := fun h =>
      hn (List.mem_append_right _ (List.mem_append_right _ h))
    have hrun := takeWhile_text_append rest [] (by simp)
    rw [List.append_nil, ← (scan_lineComment hr).1] at hrun
    rw [hrun]
    simp [isInfix_readComment]
  | block =>
    simp only [true_implies]
    refine and_congr_right fun _ => ?_
    cases hc : cut? blockClose rest with
    | none =>
      have hrun := takeWhile_text_append rest [] (by simp)
      rw [List.append_nil, ← (scan_block_of_not_cut? hc).1] at hrun
      rw [hrun]
      simp [isInfix_readComment]
    | some parts =>
      obtain ⟨within, beyond⟩ := parts
      have hrun := takeWhile_text_append within
        (('*', .delimiter) :: ('/', .delimiter) :: scan .code beyond) (by simp)
      rw [← (scan_block_of_cut? hc).1] at hrun
      rw [hrun, isInfix_readComment_iff hc]
      simp

/-! ## The lines that can hold a marker -/

/-- The lines that can hold a marker for line `n` of a source, as the scanner reads them, the
nearest first. -/
def candidateScans (source : SourceFile) (n : Nat) : List Line :=
  ((lines source.content.toList).take n).reverse.take (candidateLines .slashes source n).length

theorem exists_readLine_of_mem {line : Line} (hm : mode ≠ .lineComment)
    (h : line ∈ linesFrom mode cs) :
    ∃ mode' text, mode' ≠ .lineComment ∧ '\n' ∉ text ∧ line = readLine mode' text := by
  induction cs using induction_on_lines generalizing mode with
  | last text hn =>
    rw [linesFrom_of_not_mem hn, List.mem_singleton] at h
    exact ⟨mode, text, hm, hn, h⟩
  | step text rest hn ih =>
    rw [linesFrom_append hn] at h
    rcases List.mem_cons.1 h with rfl | h
    · exact ⟨mode, text, hm, hn, rfl⟩
    · exact ih (carry_ne_lineComment _) h

theorem exists_readLine_of_mem_candidateScans {source : SourceFile} {n : Nat} {line : Line}
    (h : line ∈ candidateScans source n) :
    ∃ mode text, mode ≠ .lineComment ∧ '\n' ∉ text ∧ line = readLine mode text :=
  exists_readLine_of_mem code_ne_lineComment
    (List.mem_of_mem_take (List.mem_reverse.1 (List.mem_of_mem_take h)))

theorem text_readLine (mode : Mode) (cs : List Char) : (readLine mode cs).text = cs :=
  map_fst_scan mode cs

theorem map_text_linesFrom (mode : Mode) (cs : List Char) :
    (linesFrom mode cs).map Line.text = segments cs := by
  induction cs using induction_on_lines generalizing mode with
  | last text hn =>
    rw [linesFrom_of_not_mem hn, List.map_singleton, text_readLine, segments,
      splitAt_of_not_mem hn]
  | step text rest hn ih =>
    rw [linesFrom_append hn, List.map_cons, text_readLine, ih, segments_append hn]

theorem map_text_scanLines (style : CommentStyle) (b : Bool) (texts : List (List Char)) :
    (scanLines style b texts).map ScannedLine.text = texts := by
  induction texts generalizing b with
  | nil => rfl
  | cons text texts ih => rw [scanLines, List.map_cons, ih]

theorem isPrefix_nearest (scanned : List ScannedLine) : nearest scanned <+: scanned.reverse := by
  rw [nearest]
  cases scanned.reverse with
  | nil => exact List.prefix_refl _
  | cons reported above => exact List.cons_prefix_cons.2 ⟨rfl, List.takeWhile_prefix _⟩

/-- The scanner and the classification read the same lines. -/
theorem map_text_candidateLines (source : SourceFile) (n : Nat) :
    (candidateLines .slashes source n).map ScannedLine.text =
      (candidateScans source n).map fun line => dropEnd isLineEnd line.text := by
  by_cases hn : n = 0 ∨ source.lineCount < n
  · rw [candidateScans, candidateLines_eq_nil hn]
    rfl
  · have hlines : (lines source.content.toList).map (fun line => dropEnd isLineEnd line.text) =
        (segments source.content.toList).map (dropEnd isLineEnd) := by
      rw [lines_eq_linesFrom, ← map_text_linesFrom .code, List.map_map]
      rfl
    have hcand : candidateLines .slashes source n = nearest _ :=
      candidateLines_eq_nearest source (by omega) (by omega)
    have hstart := List.prefix_iff_eq_take.1 (hcand ▸ isPrefix_nearest _)
    rw [candidateScans, List.map_take, List.map_reverse, List.map_take, hlines]
    conv_lhs => rw [hstart]
    rw [List.map_take, List.map_reverse, map_text_scanLines]

/-- One of the lines that can hold a marker for line `n` has one for a finding inside a comment, and
this comment goes on with text that `comment` is part of. -/
def HoldsMarker (source : SourceFile) (n : Nat) (hash checker : String) (comment : List Char) :
    Prop :=
  ∃ line ∈ candidateScans source n, ∃ before marker list after,
    line.Encloses before marker after ∧ Written list marker ∧ Names list hash checker ∧
      comment <:+: after

/-- What is found for a finding is read off the first keyword of one of the lines that can hold a
marker. It lies in a comment, and its own comment is text of that comment, iff the scanner stands in
a comment at the keyword, and a block neither ends in the list nor has more than blanks behind its
end. -/
theorem inlineSuppression_inComment_iff {sources : SourceCache} {fs : FileSystem} {path : String}
    (hstyle : CommentStyle.ofPath path = .slashes) {n : Nat} {hash checker : String}
    {found : InlineSuppression}
    (h : (inlineSuppression sources fs path n hash checker).1 = some found) :
    ∃ source, (sources.file fs path).1 = some source ∧
      ∃ line ∈ candidateScans source n, ∃ before marker list rest,
        FirstIn line.text before marker list rest ∧ Names list hash checker ∧
        found.comment = .ofList (readComment rest) ∧
        ((∃ after, line.Encloses before marker after ∧ found.comment.toList <:+: after) ↔
          line.KeepsMarker before list rest) ∧
        (line.KeepsMarker before list rest →
          HoldsMarker source n hash checker found.comment.toList) := by
  obtain ⟨source, hsource, marker, hmarker, rfl⟩ := inlineSuppression_eq_some_iff.1 h
  rw [hstyle] at hmarker
  obtain ⟨scanned, hscanned, hread, happlies⟩ := exists_of_markerFor? hmarker
  obtain ⟨before, text, list, rest, hfirst, -, -, rfl⟩ := ofLine?_eq_some_iff.1 hread
  obtain ⟨entry, hentry, -, hasks⟩ := (appliesTo_readTargets_iff _).1 happlies
  obtain ⟨line, hline, hshown⟩ := List.mem_map.1
    (map_text_candidateLines source n ▸ List.mem_map_of_mem hscanned)
  obtain ⟨mode, cs, hm, hn, rfl⟩ := exists_readLine_of_mem_candidateScans hline
  -- The line as it is shown lacks the carriage returns at its end, which are blanks.
  obtain ⟨ends, hends, hreturns⟩ := exists_append_dropEnd isLineEnd cs
  rw [text_readLine] at hshown
  have hcs : cs = before ++ (text ++ (rest ++ ends)) := by
    rw [hends, hshown, hfirst.text_eq, List.append_assoc, List.append_assoc]
  have hcomment : readComment (rest ++ ends) = readComment rest :=
    readComment_append fun c hc => isBlank_of_isLineEnd (hreturns c hc)
  subst hcs
  have hiff := encloses_readComment_iff hm hfirst.written hn
  refine ⟨source, hsource, _, hline, before, text, list, rest ++ ends,
    ⟨text_readLine mode _, hfirst.first, hfirst.written⟩, ⟨entry, hentry, hasks⟩,
    by rw [hcomment], ?_, fun hkeeps => ?_⟩
  · rw [String.toList_ofList, ← hcomment]
    exact hiff
  · obtain ⟨after, hencloses, hin⟩ := hiff.2 hkeeps
    refine ⟨_, hline, before, text, list, after, hencloses, hfirst.written,
      ⟨entry, hentry, hasks⟩, ?_⟩
    rwa [String.toList_ofList, ← hcomment]

/-- A closed block, and a line comment with a marker behind some other text. -/
theorem inlineSuppression_inComment_afterBlock :
    let path := "src/a.c"
    let text := "int a; /* old */ int b; // see quell_suppress [k] ok */ too\r\n"
    let sources := SourceCache.empty.add path text
    let found : InlineSuppression := ⟨"h", "a.c", "ok */ too"⟩
    let fs := FileSystem.empty []
    CommentStyle.ofPath path = .slashes ∧
    (inlineSuppression sources fs path 1 "h" "k").1 = some found ∧
    ∃ source, (sources.file fs path).1 = some source ∧
      ∃ line ∈ candidateScans source 1, ∃ before marker list rest,
        FirstIn line.text before marker list rest ∧ Names list "h" "k" ∧
        found.comment = .ofList (readComment rest) ∧
        ((∃ after, line.Encloses before marker after ∧ found.comment.toList <:+: after) ↔
          line.KeepsMarker before list rest) ∧
        (line.KeepsMarker before list rest → HoldsMarker source 1 "h" "k" found.comment.toList) := by
  intro path text sources found fs
  have hstyle : CommentStyle.ofPath path = .slashes := by decide
  have hfound : (inlineSuppression sources fs path 1 "h" "k").1 = some found := by decide +kernel
  exact ⟨hstyle, hfound, inlineSuppression_inComment_iff hstyle hfound⟩

/-- The keyword of a marker inside a comment, and what the comment goes on with, are characters that
the scanner takes for text of comments. -/
theorem HoldsMarker.exists_isInfix {source : SourceFile} {n : Nat} {hash checker : String}
    {comment : List Char} (h : HoldsMarker source n hash checker comment) :
    ∃ line ∈ candidateScans source n, keyword.map (·, Mark.text) <:+: line.chars ∧
      comment.map (·, Mark.text) <:+: line.chars := by
  obtain ⟨line, hline, before, marker, list, after, ⟨a, b, hchars, -, rfl⟩,
    ⟨-, blanks, -, rfl⟩, -, hcomment⟩ := h
  have hafter : ((b.takeWhile fun p => p.2 = .text).map Prod.fst).map (·, Mark.text) <+: b := by
    have hself : ((b.takeWhile fun p => p.2 = .text).map Prod.fst).map (·, Mark.text) =
        b.takeWhile fun p => p.2 = .text := by
      rw [List.map_map]
      refine (List.map_congr_left fun p hp => ?_).trans (List.map_id _)
      have htext : p.2 = .text := by simpa using List.mem_takeWhile_imp hp
      exact Prod.ext rfl htext.symm
    rw [hself]
    exact List.takeWhile_prefix _
  refine ⟨line, hline, ?_, ?_⟩
  · rw [hchars, List.map_append, List.append_assoc]
    exact List.infix_append' _ _ _
  · refine (hcomment.map _).trans (hafter.isInfix.trans ?_)
    rw [hchars, ← List.append_assoc]
    exact (List.suffix_append _ _).isInfix

/-- A marker is read behind the end of a comment, where there is code, and the comment of another
one goes on in the code behind it. -/
theorem not_holdsMarker_closed :
    let path := "src/a.c"
    let text := "int a; /* old */ int quell_suppress [all];\n" ++
      "x = 1 / y; /* quell_suppress [all] known */ z = 2;\n"
    let source := SourceFile.ofContent text
    let found (n : Nat) :=
      (inlineSuppression (SourceCache.empty.add path text) (FileSystem.empty []) path n "h" "k").1
    found 1 = some ⟨"h", "a.c", ";"⟩ ∧ ¬ HoldsMarker source 1 "h" "k" ";".toList ∧
      found 2 = some ⟨"h", "a.c", "known */ z = 2;"⟩ ∧
      ¬ HoldsMarker source 2 "h" "k" "known */ z = 2;".toList := by
  intro path text source found
  refine ⟨by decide +kernel, fun h => ?_, by decide +kernel, fun h => ?_⟩
  · exact absurd h.exists_isInfix (by decide +kernel)
  · exact absurd h.exists_isInfix (by decide +kernel)

end Findings.Scanner
