import Findings.Proofs.Suppression.Scanner

/-!
# The delimiters of code, against the scanner

A line that starts with code is cut at its first `//`, and ends in a block if `/*` comes after `*/`
in what is left. That is right for most code.

* `leavesBlockOpen_eq`: the judgement is about the last block delimiter before the first `//`.
* `stop_eq_block_iff_of_plain`: this delimiter tells where the scanner stops, if none share a
  character.
* `Line.agrees_iff_of_plain`: then the judgement is right unless the first `//` stands in a block
  that is closed on the line.
-/

namespace Findings.Scanner

open Text CommentStyle

variable {mode : Mode} {cs : List Char}

/-! ## What the delimiters say -/

/-- Whether the last block delimiter of a text opens a block. -/
def lastOpens? : List Char → Option Bool
  | [] => none
  | c :: cs =>
    match lastOpens? cs with
    | some opens => some opens
    | none =>
      if blockOpen.isPrefixOf (c :: cs) then some true
      else if blockClose.isPrefixOf (c :: cs) then some false
      else none

theorem lastOpens?_cons (c : Char) (cs : List Char) :
    lastOpens? (c :: cs) = (lastOpens? cs).or
      (if blockOpen.isPrefixOf (c :: cs) then some true
        else if blockClose.isPrefixOf (c :: cs) then some false else none) := by
  rw [lastOpens?]
  cases lastOpens? cs <;> rfl

/-- Where two delimiters occur last tells which of them is the last. -/
theorem lastOpens?_eq (cs : List Char) :
    lastOpens? cs =
      match lastIndex? blockOpen cs, lastIndex? blockClose cs with
      | some opened, some closed => some (decide (closed < opened))
      | some _, none => some true
      | none, some _ => some false
      | none, none => none := by
  induction cs with
  | nil => rfl
  | cons c cs ih =>
    rw [lastOpens?_cons, ih, lastIndex?, lastIndex?]
    cases lastIndex? blockOpen cs with
    | some opened =>
      cases lastIndex? blockClose cs with
      | some closed => simp
      | none => cases blockClose.isPrefixOf (c :: cs) <;> simp
    | none =>
      cases lastIndex? blockClose cs with
      | some closed => cases blockOpen.isPrefixOf (c :: cs) <;> simp
      | none =>
        by_cases hopen : blockOpen.isPrefixOf (c :: cs) = true
        · -- Both delimiters at one place would need two first characters.
          have hclose : blockClose.isPrefixOf (c :: cs) = false := by
            obtain ⟨r, hr⟩ := List.isPrefixOf_iff_prefix.1 hopen
            exact isPrefixOf_cons_of_ne ((List.cons.inj hr).1 ▸ by decide) _
          simp only [hopen, hclose]
          rfl
        · simp only [Bool.eq_false_iff.2 hopen]
          cases blockClose.isPrefixOf (c :: cs) <;> rfl

/-- The text of a line before its first `//`, or all of it. -/
def beforeLineOpen (cs : List Char) : List Char :=
  ((cut? lineOpen cs).map Prod.fst).getD cs

theorem leavesBlockOpen_eq (cs : List Char) :
    leavesBlockOpen cs = decide (lastOpens? (beforeLineOpen cs) = some true) := by
  rw [leavesBlockOpen, ← beforeLineOpen, lastOpens?_eq]
  cases lastIndex? blockOpen (beforeLineOpen cs) <;>
    cases lastIndex? blockClose (beforeLineOpen cs) <;> simp

/-- Whether the last block delimiter before the first `//` of a line's code opens a block iff the
scanner stops in one. -/
def Line.Agrees (line : Line) : Prop :=
  lastOpens? (beforeLineOpen line.codeRest) = some true ↔ stop .code line.codeRest = .block

instance (line : Line) : Decidable line.Agrees :=
  inferInstanceAs (Decidable (_ ↔ _))

/-! ## What the scanner says -/

/-- Whether a text has no `//` and block delimiters that share no character. -/
structure Plain (cs : List Char) : Prop where
  not_lineOpen : occurs lineOpen cs = false
  not_openClose : occurs ['/', '*', '/'] cs = false
  not_closeOpen : occurs ['*', '/', '*'] cs = false

theorem Plain.tail {c : Char} (h : Plain (c :: cs)) : Plain cs := by
  obtain ⟨h₁, h₂, h₃⟩ := h
  rw [occurs_cons_eq_false_iff] at h₁ h₂ h₃
  exact ⟨h₁.2, h₂.2, h₃.2⟩

theorem lastOpens?_cons_of_ne {c : Char} (h₁ : blockOpen.isPrefixOf (c :: cs) = false)
    (h₂ : blockClose.isPrefixOf (c :: cs) = false) : lastOpens? (c :: cs) = lastOpens? cs := by
  rw [lastOpens?_cons, h₁, h₂]
  exact Option.or_none

/-- In a plain text the last block delimiter tells whether a block is open after it. -/
theorem stop_eq_block_iff_of_plain (hm : mode ≠ .lineComment) (h : Plain cs) :
    stop mode cs = .block ↔ (lastOpens? cs).getD (mode = .block) = true := by
  fun_induction scan mode cs with
  | case1 => simp [stop, lastOpens?]
  | case2 cs _ => exact absurd h.not_lineOpen (by simp [occurs_cons, lineOpen])
  | case3 cs ih =>
    have hnext : blockClose.isPrefixOf ('*' :: cs) = false :=
      (occurs_cons_eq_false_iff.1 h.not_openClose).1
    rw [stop, ih (by decide) h.tail.tail, lastOpens?_cons, lastOpens?_cons_of_ne rfl hnext]
    cases lastOpens? cs <;> simp [blockOpen]
  | case4 c cs h₁ h₂ ih =>
    rw [stop, ih (by decide) h.tail, lastOpens?_cons]
    · cases lastOpens? cs with
      | some opens => rfl
      | none =>
        have hopen : blockOpen.isPrefixOf (c :: cs) = false := isPrefixOf_pair_eq_false.2 h₂
        rw [Option.none_or, hopen]
        cases blockClose.isPrefixOf (c :: cs) <;> rfl
    all_goals assumption
  | case5 | case6 => exact absurd rfl hm
  | case7 cs ih =>
    have hnext : blockOpen.isPrefixOf ('/' :: cs) = false :=
      (occurs_cons_eq_false_iff.1 h.not_closeOpen).1
    rw [stop, ih (by decide) h.tail.tail, lastOpens?_cons, lastOpens?_cons_of_ne hnext rfl]
    cases lastOpens? cs <;> simp [blockOpen, blockClose]
  | case8 c cs h₁ ih =>
    rw [stop, ih (by decide) h.tail, lastOpens?_cons]
    · cases lastOpens? cs with
      | some opens => rfl
      | none =>
        have hclose : blockClose.isPrefixOf (c :: cs) = false := isPrefixOf_pair_eq_false.2 h₁
        rw [Option.none_or, hclose]
        cases blockOpen.isPrefixOf (c :: cs) <;> rfl
    all_goals assumption

theorem stop_ne_lineComment (hm : mode ≠ .lineComment) (h : occurs lineOpen cs = false) :
    stop mode cs ≠ .lineComment := by
  fun_induction scan mode cs with
  | case1 => exact hm
  | case2 cs _ => exact absurd h (by simp [occurs_cons, lineOpen])
  | case3 cs ih =>
    rw [occurs_cons_eq_false_iff, occurs_cons_eq_false_iff] at h
    exact ih (by decide) h.2.2
  | case4 c cs h₁ h₂ ih =>
    rw [occurs_cons_eq_false_iff] at h
    rw [stop]
    · exact ih (by decide) h.2
    all_goals assumption
  | case5 | case6 => exact absurd rfl hm
  | case7 cs ih =>
    rw [occurs_cons_eq_false_iff, occurs_cons_eq_false_iff] at h
    exact ih (by decide) h.2.2
  | case8 c cs h₁ ih =>
    rw [occurs_cons_eq_false_iff] at h
    rw [stop]
    · exact ih (by decide) h.2
    all_goals assumption

/-- Outside of blocks the first `//` of a text is scanned as the start of a comment. -/
theorem stop_append_lineOpen (hm : mode ≠ .lineComment) (h : occurs lineOpen (cs ++ ['/']) = false)
    (hstop : stop mode cs = .code) (rest : List Char) :
    stop mode (cs ++ (lineOpen ++ rest)) = stop .lineComment rest := by
  fun_induction scan mode cs with
  | case1 mode =>
    rw [stop] at hstop
    rw [hstop]
    rfl
  | case2 cs _ => exact absurd h (by simp [occurs_cons, lineOpen])
  | case3 cs ih =>
    rw [List.cons_append, List.cons_append, occurs_cons_eq_false_iff, occurs_cons_eq_false_iff] at h
    exact ih (by decide) h.2.2 hstop
  | case4 c cs h₁ h₂ ih =>
    rw [List.cons_append, occurs_cons_eq_false_iff] at h
    have hnot₁ (r) : c = '/' → cs ++ (lineOpen ++ rest) = '/' :: r → False := by
      rintro rfl hr
      cases cs with
      | nil => exact absurd h.1 (by simp [lineOpen])
      | cons d cs => exact h₁ cs rfl (by rw [(List.cons.inj hr).1])
    have hnot₂ (r) : c = '/' → cs ++ (lineOpen ++ rest) = '*' :: r → False := by
      rintro rfl hr
      cases cs with
      | nil => exact absurd (List.cons.inj hr).1 (by decide)
      | cons d cs => exact h₂ cs rfl (by rw [(List.cons.inj hr).1])
    rw [stop] at hstop
    · rw [List.cons_append, stop]
      · exact ih (by decide) h.2 hstop
      all_goals assumption
    all_goals assumption
  | case5 | case6 => exact absurd rfl hm
  | case7 cs ih =>
    rw [List.cons_append, List.cons_append, occurs_cons_eq_false_iff, occurs_cons_eq_false_iff] at h
    exact ih (by decide) h.2.2 hstop
  | case8 c cs h₁ ih =>
    rw [List.cons_append, occurs_cons_eq_false_iff] at h
    rw [stop] at hstop
    · have hnot (r) : c = '*' → cs ++ (lineOpen ++ rest) = '/' :: r → False := by
        rintro rfl hr
        cases cs with
        | nil => exact absurd hstop (by decide)
        | cons d cs => exact h₁ cs rfl (by rw [(List.cons.inj hr).1])
      rw [List.cons_append, stop]
      · exact ih (by decide) h.2 hstop
      all_goals assumption
    all_goals assumption

/-- Code that stands outside of blocks at its first `//` does not stop in one. -/
theorem stop_ne_block_of_beforeLineOpen (hn : '\n' ∉ cs)
    (hstop : stop .code (beforeLineOpen cs) = .code) : stop .code cs ≠ .block := by
  cases hc : cut? lineOpen cs with
  | none =>
    have hall : beforeLineOpen cs = cs := by rw [beforeLineOpen, hc]; rfl
    rw [← hall, hstop]
    decide
  | some parts =>
    obtain ⟨before, after⟩ := parts
    have hbefore : beforeLineOpen cs = before := by rw [beforeLineOpen, hc]; rfl
    have happ : before ++ (lineOpen ++ after) = cs := by
      rw [← append_of_cut? hc, List.append_assoc]
    have hfirst : occurs lineOpen (before ++ lineOpen.dropLast) = false :=
      not_occurs_of_cut? (by decide) (q := after) (by rw [happ, hc])
    have hafter : '\n' ∉ after := by
      intro hm
      exact hn (happ ▸ List.mem_append_right _ (List.mem_append_right _ hm))
    rw [hbefore] at hstop
    rw [← happ, stop_append_lineOpen code_ne_lineComment hfirst hstop, (scan_lineComment hafter).2]
    decide

/-- Where no delimiters share a character, they tell where the scanner stops unless the first `//`
stands in a block that is closed on the line. -/
theorem Line.agrees_iff_of_plain {line : Line} (hn : '\n' ∉ line.codeRest)
    (h : Plain (beforeLineOpen line.codeRest)) :
    line.Agrees ↔
      (stop .code (beforeLineOpen line.codeRest) = .block → stop .code line.codeRest = .block) := by
  have hlast := stop_eq_block_iff_of_plain code_ne_lineComment h
  have hopen : lastOpens? (beforeLineOpen line.codeRest) = some true ↔
      stop .code (beforeLineOpen line.codeRest) = .block := by
    rw [hlast]
    cases lastOpens? (beforeLineOpen line.codeRest) <;> simp
  rw [Line.Agrees, hopen]
  refine ⟨Iff.mp, fun hblock => ⟨hblock, fun hcs => ?_⟩⟩
  by_contra hcode
  have hmode : stop .code (beforeLineOpen line.codeRest) = .code := by
    have hne := stop_ne_lineComment code_ne_lineComment h.not_lineOpen
    cases hs : stop .code (beforeLineOpen line.codeRest) with
    | code => rfl
    | block => exact absurd hs hcode
    | lineComment => exact absurd hs hne
  exact absurd hcs (stop_ne_block_of_beforeLineOpen hn hmode)

end Findings.Scanner
