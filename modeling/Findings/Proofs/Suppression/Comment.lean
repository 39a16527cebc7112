import Findings.Proofs.Suppression.Delimiters

/-!
# Classifying lines, against the scanner

Peeling comments off the front of a line is what the scanner does. From the first visible code on
the two part: there the classification looks at the last delimiters only.

* `classifyFrom_eq_verdict`: peeling is scanning, from both states that a line can start in.
* `classify_eq`: a line is classified as the scanner reads it, but for what its code leaves open.
* `endsInBlock_classify_iff`: that too is as the scanner says iff the delimiters of the line agree.
-/

namespace Findings.Scanner

open Text CommentStyle

/-! ## What the scanner says of a line -/

/-- A comment-only line, and an open block at its end, as classification decides them from a scanned
line and the place where the scanner stopped. `seen` says whether there was a comment before. -/
def verdict (seen : Bool) (marked : List (Char × Mark)) (mode : Mode) : LineClass where
  commentOnly := (seen || marked.any fun p => p.2 ≠ .code) && !marked.any isVisible
  endsInBlock :=
    if codeFrom marked = [] then mode = .block else leavesBlockOpen (codeFrom marked)

variable {seen : Bool} {mode : Mode} {cs rest : List Char} {marked a b : List (Char × Mark)}

/-- What is not visible code only counts as a comment or as nothing. -/
theorem verdict_append (h : a.any isVisible = false) :
    verdict seen (a ++ b) mode = verdict (seen || a.any fun p => p.2 ≠ .code) b mode := by
  simp only [verdict, codeFrom_append_of_not_any h, List.any_append, h, Bool.false_or,
    Bool.or_assoc]

theorem verdict_of_not_any (h : marked.any isVisible = false) :
    verdict true marked mode = ⟨true, mode = .block⟩ := by
  simp only [verdict, codeFrom_eq_nil_iff.2 h, h, Bool.true_or, Bool.not_false, Bool.and_true,
    if_true]

theorem any_ne_code_map (cs : List Char) :
    (cs.map (·, Mark.code)).any (fun p => p.2 ≠ .code) = false := by
  simp [List.any_map]

/-! ## Peeling -/

/-- Blanks before code do not matter. -/
theorem verdict_trimStart (hn : '\n' ∉ cs) :
    verdict seen (scan .code (trimStart cs)) (stop .code (trimStart cs)) =
      verdict seen (scan .code cs) (stop .code cs) := by
  obtain ⟨blanks, he, hb⟩ := exists_append_trimStart cs
  have hnb : '\n' ∉ blanks := fun hm => hn (he ▸ List.mem_append_left _ hm)
  obtain ⟨hs, ht⟩ := scan_blanks .code hb hnb (trimStart cs)
  rw [← he] at hs ht
  rw [hs, ht, verdict_append (not_any_isVisible_of_isBlank hb _), blankMark, any_ne_code_map,
    Bool.or_false]

theorem verdict_block_of_not_cut? (h : cut? blockClose cs = none) :
    verdict true (scan .block cs) (stop .block cs) = ⟨true, true⟩ := by
  obtain ⟨hs, ht⟩ := scan_block_of_not_cut? h
  rw [hs, ht, verdict_of_not_any (not_any_isVisible_of_mark (by decide) cs)]
  rfl

/-- A line that starts in a block is what follows the block. -/
theorem verdict_block_of_cut? {before after : List Char}
    (h : cut? blockClose cs = some (before, after)) (hn : '\n' ∉ cs) :
    verdict true (scan .block cs) (stop .block cs) =
      verdict true (scan .code (trimStart after)) (stop .code (trimStart after)) := by
  obtain ⟨hs, ht⟩ := scan_block_of_cut? h
  have hna : '\n' ∉ after := fun hm => hn (append_of_cut? h ▸ List.mem_append_right _ hm)
  rw [verdict_trimStart hna, hs, ht,
    verdict_append (not_any_isVisible_of_mark (by decide) before), Bool.true_or]
  exact verdict_append (a := [('*', .delimiter), ('/', .delimiter)]) rfl

theorem verdict_lineOpen (h : '\n' ∉ cs) :
    verdict seen (scan .code (lineOpen ++ cs)) (stop .code (lineOpen ++ cs)) = ⟨true, false⟩ := by
  obtain ⟨hs, ht⟩ := scan_lineComment h
  have hopen : scan .code (lineOpen ++ cs) =
      [('/', .delimiter), ('/', .delimiter)] ++ scan .lineComment cs := rfl
  have hstop : stop .code (lineOpen ++ cs) = stop .lineComment cs := rfl
  rw [hopen, hstop, verdict_append rfl, hs, ht]
  have hv : (cs.map (·, Mark.text)).any isVisible = false :=
    not_any_isVisible_of_mark (by decide) cs
  cases seen <;> exact verdict_of_not_any hv

theorem verdict_blockOpen (cs : List Char) :
    verdict seen (scan .code (blockOpen ++ cs)) (stop .code (blockOpen ++ cs)) =
      verdict true (scan .block cs) (stop .block cs) := by
  have hopen : scan .code (blockOpen ++ cs) =
      [('/', .delimiter), ('*', .delimiter)] ++ scan .block cs := rfl
  have hstop : stop .code (blockOpen ++ cs) = stop .block cs := rfl
  rw [hopen, hstop, verdict_append rfl]
  cases seen <;> rfl

/-- Without blanks in front, a text outside of comments that opens none starts with visible code. -/
theorem verdict_code_cons {c : Char} (hc : isBlank c = false)
    (h₁ : lineOpen.isPrefixOf (c :: cs) = false) (h₂ : blockOpen.isPrefixOf (c :: cs) = false) :
    verdict seen (scan .code (c :: cs)) (stop .code (c :: cs)) =
      ⟨false, leavesBlockOpen (c :: cs)⟩ := by
  have hv : isVisible (c, .code) = true := by simp [isVisible, hc]
  obtain ⟨hs, -⟩ := scan_code_cons h₁ h₂
  have hf : codeFrom (scan .code (c :: cs)) = c :: cs := by
    rw [hs, codeFrom_cons, hv, if_pos rfl, map_fst_scan]
  rw [verdict, hf, if_neg (List.cons_ne_nil c cs), hs, List.any_cons, List.any_cons, hv]
  simp

/-- Peeling comments off a line is scanning it up to its first visible code. -/
theorem classifyFrom_eq_verdict (bound : Nat) (inBlock seen : Bool) (cs : List Char)
    (hb : cs.length + (if inBlock then 1 else 0) < bound) (hn : '\n' ∉ cs)
    (ht : inBlock = false → trimStart cs = cs) :
    classifyFrom .slashes bound inBlock seen cs =
      verdict (seen || inBlock) (scan (if inBlock then .block else .code) cs)
        (stop (if inBlock then .block else .code) cs) := by
  induction bound generalizing inBlock seen cs with
  | zero => omega
  | succ bound ih =>
    cases inBlock with
    | true =>
      rw [classifyFrom]
      simp only [Bool.or_true, if_true] at hb ⊢
      cases hc : cut? blockClose cs with
      | none => exact (verdict_block_of_not_cut? hc).symm
      | some parts =>
        obtain ⟨before, after⟩ := parts
        have happ := append_of_cut? hc
        have hsuffix : trimStart after <:+ cs :=
          (List.dropWhile_suffix _).trans (happ ▸ List.suffix_append _ _)
        have hlen : (trimStart after).length + 2 ≤ cs.length := length_trimStart_of_cut? hc
        rw [verdict_block_of_cut? hc hn]
        exact ih false true _ (by rw [if_neg Bool.false_ne_true]; omega)
          (fun hm => hn (hsuffix.subset hm)) (fun _ => trimStart_trimStart after)
    | false =>
      rw [classifyFrom]
      simp only [Bool.false_eq_true, if_false, Bool.or_false] at hb ⊢
      cases cs with
      | nil => simp [verdict, scan, stop, codeFrom]
      | cons c rest =>
        have hblank : isBlank c = false := by
          have htc := ht rfl
          rw [trimStart, List.dropWhile_eq_self_iff] at htc
          exact Bool.eq_false_iff.2 (htc (Nat.succ_pos _))
        simp only [hasSlashes, hasHash, ne_eq, reduceCtorEq, not_false_eq_true, decide_true,
          Bool.true_and, not_true_eq_false, decide_false, Bool.false_and, Bool.or_false,
          List.isEmpty_cons, if_false, Bool.false_eq_true]
        by_cases h₁ : lineOpen.isPrefixOf (c :: rest) = true
        · obtain ⟨r, hr⟩ := List.isPrefixOf_iff_prefix.1 h₁
          rw [if_pos h₁, ← hr, verdict_lineOpen]
          exact fun hm => hn (hr ▸ List.mem_append_right _ hm)
        · by_cases h₂ : blockOpen.isPrefixOf (c :: rest) = true
          · obtain ⟨r, hr⟩ := List.isPrefixOf_iff_prefix.1 h₂
            have hlen := congrArg List.length hr
            simp only [List.length_append, blockOpen, List.length_cons, List.length_nil] at hlen hb
            rw [if_neg h₁, if_pos h₂, ← hr, verdict_blockOpen]
            have hrec := ih true seen r (by rw [if_pos rfl]; omega)
              (fun hm => hn (hr ▸ List.mem_append_right _ hm)) (by simp)
            rw [Bool.or_true] at hrec
            exact hrec
          · rw [if_neg h₁, if_neg h₂]
            exact (verdict_code_cons hblank (Bool.eq_false_iff.2 h₁) (Bool.eq_false_iff.2 h₂)).symm

/-! ## Whole lines -/

/-- The scanner reads a line like its trim, up to what it says of the blanks. -/
theorem scan_trim (mode : Mode) {line : List Char} (hn : '\n' ∉ line) :
    ∃ before after : List Char,
      (∀ c ∈ before, isBlank c = true) ∧ (∀ c ∈ after, isBlank c = true) ∧
      scan mode line = before.map (·, blankMark mode) ++
        (scan mode (trim line) ++ after.map (·, blankMark (stop mode (trim line)))) ∧
      stop mode line = stop mode (trim line) := by
  obtain ⟨before, after, he, hb, ha⟩ := exists_append_trim line
  rw [he] at hn
  simp only [List.mem_append, not_or] at hn
  obtain ⟨hs₁, ht₁⟩ := scan_blanks mode hb hn.1 (trim line ++ after)
  obtain ⟨hs₂, ht₂⟩ := scan_append mode (trim line) (apart_of_forall_isBlank ha)
  obtain ⟨hs₃, ht₃⟩ := scan_blanks (stop mode (trim line)) ha hn.2.2 []
  rw [List.append_nil] at hs₃ ht₃
  rw [← he, hs₂, hs₃] at hs₁
  rw [← he, ht₂, ht₃] at ht₁
  exact ⟨before, after, hb, ha, by simpa [scan] using hs₁, by simpa [stop] using ht₁⟩

/-- Blanks around a text are comments only if there are some in the text. -/
theorem any_ne_code_scan_trim {line : List Char} (hn : '\n' ∉ line) :
    (scan .code line).any (fun p => p.2 ≠ .code) =
      (scan .code (trim line)).any fun p => p.2 ≠ .code := by
  obtain ⟨before, after, -, -, hs, -⟩ := scan_trim .code hn
  rw [hs, List.any_append, List.any_append, blankMark, any_ne_code_map, Bool.false_or]
  cases hcore : (scan .code (trim line)).any fun p => p.2 ≠ .code with
  | true => rfl
  | false =>
    rw [stop_eq_code_of_not_any hcore, blankMark, any_ne_code_map]
    rfl

theorem commentOnly_readLine {line : List Char} (hm : mode ≠ .lineComment) (hn : '\n' ∉ line) :
    (readLine mode line).commentOnly =
      (verdict (mode = .block) (scan mode (trim line)) (stop mode (trim line))).commentOnly := by
  obtain ⟨before, after, hb, ha, hs, -⟩ := scan_trim mode hn
  have hvisible : (scan mode line).any isVisible = (scan mode (trim line)).any isVisible := by
    rw [hs, List.any_append, List.any_append, not_any_isVisible_of_isBlank hb,
      not_any_isVisible_of_isBlank ha, Bool.false_or, Bool.or_false]
  rw [Line.commentOnly, readLine, verdict, hvisible]
  cases mode with
  | code => rw [any_ne_code_scan_trim hn]
  | block => rfl
  | lineComment => exact absurd rfl hm

/-- The code of a line is the code of its trim. -/
theorem codeRest_readLine (mode : Mode) {line : List Char} (hn : '\n' ∉ line) :
    (readLine mode line).codeRest = codeFrom (scan mode (trim line)) := by
  obtain ⟨before, after, hb, ha, hs, -⟩ := scan_trim mode hn
  rw [Line.codeRest, readLine, hs, codeFrom_append_of_not_any (not_any_isVisible_of_isBlank hb _)]
  cases hv : (scan mode (trim line)).any isVisible with
  | false =>
    rw [codeFrom_append_of_not_any hv, codeFrom_eq_nil_iff.2 hv,
      codeFrom_eq_nil_iff.2 (not_any_isVisible_of_isBlank ha _)]
    rfl
  | true =>
    have hne : codeFrom (scan mode (trim line)) ≠ [] := fun hnil =>
      Bool.noConfusion (hv.symm.trans (codeFrom_eq_nil_iff.1 hnil))
    have hafter : (after.map (·, blankMark (stop mode (trim line)))).map Prod.fst = after := by
      simp [Function.comp_def]
    rw [codeFrom_append_of_any hv, hafter, trimEnd, dropEnd_append ha]
    exact trimEnd_eq_self_of_suffix (stop_codeFrom hne).1 (trimEnd_trim line)

/-- A line is classified as the scanner reads it, and ends in a block as its delimiters say. -/
theorem classify_eq {line text : List Char} (hm : mode ≠ .lineComment) (hn : '\n' ∉ line)
    (ht : trim text = trim line) :
    classify .slashes text (mode = .block) =
      ⟨(readLine mode line).commentOnly,
        if (readLine mode line).codeRest = [] then stop mode line = .block
        else leavesBlockOpen (readLine mode line).codeRest⟩ := by
  obtain ⟨-, -, -, -, -, hstop⟩ := scan_trim mode hn
  have hmode : (if decide (mode = .block) = true then Mode.block else .code) = mode := by
    cases mode with
    | lineComment => exact absurd rfl hm
    | code => rfl
    | block => rfl
  have hlen : (trim line).length ≤ text.length := ht ▸ length_trim_le text
  have hpeel := classifyFrom_eq_verdict (text.length + 2) (mode = .block) false (trim line)
    (by split <;> omega) (fun h => hn ((trim_sublist line).subset h)) (fun _ => trimStart_trim line)
  rw [classify, ht, hpeel, hmode, Bool.false_or, commentOnly_readLine hm hn,
    codeRest_readLine mode hn, hstop, verdict]

/-- The state carried to the next line is right iff the delimiters of this line tell it. -/
theorem endsInBlock_classify_iff {line text : List Char} (hm : mode ≠ .lineComment)
    (hn : '\n' ∉ line) (ht : trim text = trim line) :
    (classify .slashes text (mode = .block)).endsInBlock = decide (stop mode line = .block) ↔
      (readLine mode line).Agrees := by
  obtain ⟨-, -, -, -, -, hstop⟩ := scan_trim mode hn
  rw [classify_eq hm hn ht, Line.Agrees]
  by_cases hc : (readLine mode line).codeRest = []
  · simp [hc, beforeLineOpen, lastOpens?, cut?, stop, lineOpen]
  · have hrest := codeRest_readLine mode hn
    rw [hrest] at hc
    rw [if_neg (hrest ▸ hc), hrest, hstop, (stop_codeFrom hc).2, leavesBlockOpen_eq,
      decide_eq_decide]

end Findings.Scanner
