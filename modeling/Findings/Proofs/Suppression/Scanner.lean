import Findings.Proofs.Text
import Findings.Suppression.Comment

/-!
# The comment scanner

What comments are, character by character, in a language with `//` and blocks. Outside of comments
`//` opens one up to the end of the line and `/*` opens a block; in a block only the next `*/`
counts. The characters of a delimiter are used up by it, and the state goes on from line to line.

* `linesFrom_append`: scanning a text is scanning its lines in order.
* `scan_block_of_cut?`, `scan_lineComment`: how comments end.
* `stop_codeFrom`: what follows the first visible code decides where the scanner stops.
-/

namespace Findings.Scanner

open Text

/-- Where the scanner stands. -/
inductive Mode where
  | code
  | lineComment
  | block
  deriving DecidableEq, Repr

theorem code_ne_lineComment : Mode.code ≠ .lineComment := by
  decide

/-- What a character is. -/
inductive Mark where
  | code
  /-- A character of `//`, `/*` or `*/`. -/
  | delimiter
  /-- A character inside a comment. -/
  | text
  deriving DecidableEq, Repr

/-- The characters of a text, each with what it is. -/
def scan : Mode → List Char → List (Char × Mark)
  | _, [] => []
  | .code, '/' :: '/' :: rest =>
    ('/', .delimiter) :: ('/', .delimiter) :: scan .lineComment rest
  | .code, '/' :: '*' :: rest => ('/', .delimiter) :: ('*', .delimiter) :: scan .block rest
  | .code, c :: rest => (c, .code) :: scan .code rest
  | .lineComment, '\n' :: rest => ('\n', .code) :: scan .code rest
  | .lineComment, c :: rest => (c, .text) :: scan .lineComment rest
  | .block, '*' :: '/' :: rest => ('*', .delimiter) :: ('/', .delimiter) :: scan .code rest
  | .block, c :: rest => (c, .text) :: scan .block rest

/-- Where the scanner stands after a text. -/
def stop : Mode → List Char → Mode
  | mode, [] => mode
  | .code, '/' :: '/' :: rest => stop .lineComment rest
  | .code, '/' :: '*' :: rest => stop .block rest
  | .code, _ :: rest => stop .code rest
  | .lineComment, '\n' :: rest => stop .code rest
  | .lineComment, _ :: rest => stop .lineComment rest
  | .block, '*' :: '/' :: rest => stop .code rest
  | .block, _ :: rest => stop .block rest

/-- A line of a scanned text. -/
structure Line where
  startsInBlock : Bool
  chars : List (Char × Mark)
  deriving DecidableEq, Repr

/-- Cuts a scanned text at its line feeds. A line starts inside a block if the line feed before it
stands in one. -/
def splitLines : (startsInBlock : Bool) → List (Char × Mark) → List Line
  | b, [] => [⟨b, []⟩]
  | b, (c, mark) :: rest =>
    if c = '\n' then ⟨b, []⟩ :: splitLines (mark = .text) rest
    else
      match splitLines b rest with
      | [] => [⟨b, [(c, mark)]⟩]
      | line :: lines => ⟨b, (c, mark) :: line.chars⟩ :: lines

/-- The lines of a text, scanned from its start. -/
def lines (text : List Char) : List Line :=
  splitLines false (scan .code text)

/-! ## Putting texts together -/

variable {mode : Mode} {cs rest : List Char}

/-- Whether a text can follow any other without a delimiter in between. -/
def Apart (rest : List Char) : Prop :=
  ∀ c ∈ rest.head?, c ≠ '/' ∧ c ≠ '*'

theorem apart_cons {c : Char} (h : c ≠ '/' ∧ c ≠ '*') (cs : List Char) : Apart (c :: cs) := by
  simpa [Apart] using h

/-- Text that no delimiter's second character starts still does so before a text apart. -/
theorem Apart.append (h : Apart rest) {d : Char} (hd : d = '/' ∨ d = '*')
    (hcs : ∀ r, cs = d :: r → False) : ∀ r, cs ++ rest = d :: r → False := by
  intro r hr
  cases cs with
  | nil =>
    have hne := h d (by simp [show rest = d :: r from hr])
    rcases hd with rfl | rfl
    · exact hne.1 rfl
    · exact hne.2 rfl
  | cons c cs =>
    rw [List.cons_append, List.cons.injEq] at hr
    exact hcs cs (by rw [hr.1])

/-- Scanning goes on where it stopped. -/
theorem scan_append (mode : Mode) (cs : List Char) (h : Apart rest) :
    scan mode (cs ++ rest) = scan mode cs ++ scan (stop mode cs) rest ∧
      stop mode (cs ++ rest) = stop (stop mode cs) rest := by
  fun_induction scan mode cs with
  | case1 mode => exact ⟨rfl, rfl⟩
  | case2 cs ih => simpa [scan, stop] using ih
  | case3 cs ih => simpa [scan, stop] using ih
  | case4 c cs h₁ h₂ ih =>
    have h₁' (r) (hc : c = '/') := h.append (.inl rfl) (fun r hr => h₁ r hc hr) r
    have h₂' (r) (hc : c = '/') := h.append (.inr rfl) (fun r hr => h₂ r hc hr) r
    rw [List.cons_append, scan, stop, stop, ih.1, ih.2]
    · exact ⟨rfl, rfl⟩
    all_goals assumption
  | case5 cs ih => simpa [scan, stop] using ih
  | case6 c cs hc ih =>
    rw [List.cons_append, scan, stop, stop, ih.1, ih.2]
    · exact ⟨rfl, rfl⟩
    all_goals assumption
  | case7 cs ih => simpa [scan, stop] using ih
  | case8 c cs h₁ ih =>
    have h₁' (r) (hc : c = '*') := h.append (.inl rfl) (fun r hr => h₁ r hc hr) r
    rw [List.cons_append, scan, stop, stop, ih.1, ih.2]
    · exact ⟨rfl, rfl⟩
    all_goals assumption

theorem map_fst_scan (mode : Mode) (cs : List Char) : (scan mode cs).map Prod.fst = cs := by
  fun_induction scan mode cs <;> simp_all

/-! ## One character at a time -/

theorem isPrefixOf_pair_eq_false {c d e : Char} :
    [d, e].isPrefixOf (c :: cs) = false ↔ ∀ r, c = d → cs = e :: r → False := by
  constructor
  · rintro h r rfl rfl
    simp [List.isPrefixOf] at h
  · intro h
    by_contra hp
    obtain ⟨r, hr⟩ := List.isPrefixOf_iff_prefix.1 (Bool.not_eq_false _ ▸ hp)
    rw [List.cons_append, List.cons_append, List.nil_append, List.cons.injEq] at hr
    exact h r hr.1.symm hr.2.symm

theorem scan_code_cons {c : Char} (h₁ : CommentStyle.lineOpen.isPrefixOf (c :: cs) = false)
    (h₂ : CommentStyle.blockOpen.isPrefixOf (c :: cs) = false) :
    scan .code (c :: cs) = (c, .code) :: scan .code cs ∧ stop .code (c :: cs) = stop .code cs := by
  have h₁' := isPrefixOf_pair_eq_false.1 h₁
  have h₂' := isPrefixOf_pair_eq_false.1 h₂
  rw [scan, stop]
  · exact ⟨rfl, rfl⟩
  all_goals assumption

theorem scan_lineComment_cons {c : Char} (h : c ≠ '\n') :
    scan .lineComment (c :: cs) = (c, .text) :: scan .lineComment cs ∧
      stop .lineComment (c :: cs) = stop .lineComment cs := by
  rw [scan, stop]
  · exact ⟨rfl, rfl⟩
  all_goals exact h

theorem scan_block_cons {c : Char} (h : CommentStyle.blockClose.isPrefixOf (c :: cs) = false) :
    scan .block (c :: cs) = (c, .text) :: scan .block cs ∧
      stop .block (c :: cs) = stop .block cs := by
  have hc := isPrefixOf_pair_eq_false.1 h
  rw [scan, stop]
  · exact ⟨rfl, rfl⟩
  all_goals exact hc

/-- No delimiter starts with any other character than its own first. -/
theorem isPrefixOf_cons_of_ne {c d : Char} (h : c ≠ d) (needle : List Char) :
    (d :: needle).isPrefixOf (c :: cs) = false := by
  simp [List.isPrefixOf, Ne.symm h]

/-! ## Comments -/

/-- A line comment goes on to the end of the line. -/
theorem scan_lineComment (h : '\n' ∉ cs) :
    scan .lineComment cs = cs.map (·, .text) ∧ stop .lineComment cs = .lineComment := by
  induction cs with
  | nil => exact ⟨rfl, rfl⟩
  | cons c cs ih =>
    rw [List.mem_cons, not_or] at h
    obtain ⟨hs, ht⟩ : scan .lineComment (c :: cs) = (c, .text) :: scan .lineComment cs ∧ _ :=
      scan_lineComment_cons (Ne.symm h.1)
    rw [hs, ht, (ih h.2).1, (ih h.2).2]
    exact ⟨rfl, rfl⟩

/-- A block that is not closed goes on to the end of the text. -/
theorem scan_block_of_not_cut? (h : cut? CommentStyle.blockClose cs = none) :
    scan .block cs = cs.map (·, .text) ∧ stop .block cs = .block := by
  induction cs with
  | nil => exact ⟨rfl, rfl⟩
  | cons c cs ih =>
    rw [cut?] at h
    split at h
    · simp at h
    · rename_i hp
      obtain ⟨hs, ht⟩ := scan_block_cons (Bool.eq_false_iff.2 hp)
      obtain ⟨hs', ht'⟩ := ih (Option.map_eq_none_iff.1 h)
      rw [hs, ht, hs', ht']
      exact ⟨rfl, rfl⟩

/-- A block is closed by the first `*/`. -/
theorem scan_block_of_cut? {before after : List Char}
    (h : cut? CommentStyle.blockClose cs = some (before, after)) :
    scan .block cs =
        before.map (·, .text) ++ ('*', .delimiter) :: ('/', .delimiter) :: scan .code after ∧
      stop .block cs = stop .code after := by
  induction cs generalizing before with
  | nil => simp [cut?, CommentStyle.blockClose] at h
  | cons c cs ih =>
    rw [cut?] at h
    split at h
    · rename_i hp
      obtain ⟨r, hr⟩ := List.isPrefixOf_iff_prefix.1 hp
      simp only [Option.some.injEq, Prod.mk.injEq] at h
      obtain ⟨rfl, rfl⟩ := h
      rw [← hr]
      exact ⟨rfl, rfl⟩
    · rename_i hp
      obtain ⟨⟨b, a⟩, hc, he⟩ := Option.map_eq_some_iff.1 h
      simp only [Prod.mk.injEq] at he
      obtain ⟨rfl, rfl⟩ := he
      obtain ⟨hs, ht⟩ := scan_block_cons (Bool.eq_false_iff.2 hp)
      obtain ⟨hs', ht'⟩ := ih hc
      rw [hs, ht, hs', ht']
      exact ⟨rfl, rfl⟩

theorem not_isBlank_delimiter {c : Char} (h : isBlank c = true) : c ≠ '/' ∧ c ≠ '*' := by
  constructor <;> rintro rfl <;> exact absurd h (by decide)

theorem apart_of_forall_isBlank (h : ∀ c ∈ cs, isBlank c = true) : Apart cs :=
  fun c hc => not_isBlank_delimiter (h c (List.mem_of_mem_head? hc))

/-- What a blank is at some place. -/
def blankMark : Mode → Mark
  | .code => .code
  | .lineComment => .text
  | .block => .text

/-- Blanks neither open nor close a comment, within a line. -/
theorem scan_blanks (mode : Mode) (h : ∀ c ∈ cs, isBlank c = true) (hn : '\n' ∉ cs)
    (rest : List Char) :
    scan mode (cs ++ rest) = cs.map (·, blankMark mode) ++ scan mode rest ∧
      stop mode (cs ++ rest) = stop mode rest := by
  induction cs with
  | nil => exact ⟨rfl, rfl⟩
  | cons c cs ih =>
    rw [List.forall_mem_cons] at h
    rw [List.mem_cons, not_or] at hn
    obtain ⟨hs, ht⟩ := ih h.2 hn.2
    obtain ⟨h₁, h₂⟩ := not_isBlank_delimiter h.1
    have hc : c ≠ '\n' := Ne.symm hn.1
    have hone : scan mode (c :: (cs ++ rest)) = (c, blankMark mode) :: scan mode (cs ++ rest) ∧
        stop mode (c :: (cs ++ rest)) = stop mode (cs ++ rest) := by
      cases mode with
      | code => exact scan_code_cons (isPrefixOf_cons_of_ne h₁ _) (isPrefixOf_cons_of_ne h₁ _)
      | lineComment => exact scan_lineComment_cons hc
      | block => exact scan_block_cons (isPrefixOf_cons_of_ne h₂ _)
    rw [List.cons_append, hone.1, hone.2, hs, ht]
    exact ⟨rfl, rfl⟩

/-! ## Lines -/

/-- Where the scanner stands at the start of a line, after it stood somewhere at the end of the
line before. -/
def carry (mode : Mode) : Mode :=
  if mode = .block then .block else .code

theorem splitLines_append {marked more : List (Char × Mark)} {b : Bool} {mark : Mark}
    (h : '\n' ∉ marked.map Prod.fst) :
    splitLines b (marked ++ ('\n', mark) :: more) =
      ⟨b, marked⟩ :: splitLines (mark = .text) more := by
  induction marked with
  | nil => simp [splitLines]
  | cons p marked ih =>
    rw [List.map_cons, List.mem_cons, not_or] at h
    simp [splitLines, Ne.symm h.1, ih h.2]

theorem splitLines_of_not_mem {marked : List (Char × Mark)} {b : Bool}
    (h : '\n' ∉ marked.map Prod.fst) : splitLines b marked = [⟨b, marked⟩] := by
  induction marked with
  | nil => rfl
  | cons p marked ih =>
    rw [List.map_cons, List.mem_cons, not_or] at h
    simp [splitLines, Ne.symm h.1, ih h.2]

/-- The lines of a text, scanned from the start of a line. -/
def linesFrom (mode : Mode) (text : List Char) : List Line :=
  splitLines (mode = .block) (scan mode text)

/-- The line that a text without line feeds is. -/
def readLine (mode : Mode) (line : List Char) : Line :=
  ⟨mode = .block, scan mode line⟩

theorem linesFrom_of_not_mem {line : List Char} (h : '\n' ∉ line) :
    linesFrom mode line = [readLine mode line] := by
  refine splitLines_of_not_mem ?_
  rwa [map_fst_scan]

/-- A text is scanned line by line. -/
theorem linesFrom_append {line : List Char} (h : '\n' ∉ line) (rest : List Char) :
    linesFrom mode (line ++ '\n' :: rest) =
      readLine mode line :: linesFrom (carry (stop mode line)) rest := by
  have hs := (scan_append mode line (apart_cons (c := '\n') (by decide) rest)).1
  have hmarked : '\n' ∉ (scan mode line).map Prod.fst := by rwa [map_fst_scan]
  have hnext : scan (stop mode line) ('\n' :: rest) =
      ('\n', if stop mode line = .block then .text else .code) ::
        scan (carry (stop mode line)) rest := by
    cases stop mode line <;> simp [scan, carry]
  rw [linesFrom, hs, hnext, splitLines_append hmarked, linesFrom]
  cases stop mode line <;> rfl

theorem lines_eq_linesFrom (text : List Char) : lines text = linesFrom .code text := rfl

/-! ## Visible code -/

/-- Whether a character is visible and outside of comments. -/
def isVisible (p : Char × Mark) : Bool :=
  p.2 = .code && !isBlank p.1

/-- The text from the first visible code on. -/
def codeFrom (marked : List (Char × Mark)) : List Char :=
  (marked.dropWhile fun p => !isVisible p).map Prod.fst

namespace Line

/-- Whether a line holds comments and nothing else: it starts inside a block or has a comment, and
has no visible code. -/
def commentOnly (line : Line) : Bool :=
  (line.startsInBlock || line.chars.any fun p => p.2 ≠ .code) && !line.chars.any isVisible

/-- The line from its first visible code on, without the blanks at its end. -/
def codeRest (line : Line) : List Char :=
  trimEnd (codeFrom line.chars)

/-- The line as it is shown, without carriage returns at its end. -/
def scanned (line : Line) : ScannedLine where
  text := dropEnd SourceFile.isLineEnd (line.chars.map Prod.fst)
  startsInBlock := line.startsInBlock
  commentOnly := line.commentOnly

end Line

variable {a b : List (Char × Mark)}

theorem codeFrom_cons (p : Char × Mark) (marked : List (Char × Mark)) :
    codeFrom (p :: marked) =
      if isVisible p then p.1 :: marked.map Prod.fst else codeFrom marked := by
  unfold codeFrom
  rw [List.dropWhile_cons]
  cases isVisible p <;> rfl

theorem codeFrom_append_of_not_any (h : a.any isVisible = false) (b : List (Char × Mark)) :
    codeFrom (a ++ b) = codeFrom b := by
  induction a with
  | nil => rfl
  | cons p a ih =>
    rw [List.any_cons, Bool.or_eq_false_iff] at h
    rw [List.cons_append, codeFrom_cons, h.1, ih h.2]
    rfl

theorem codeFrom_append_of_any (h : a.any isVisible = true) (b : List (Char × Mark)) :
    codeFrom (a ++ b) = codeFrom a ++ b.map Prod.fst := by
  induction a with
  | nil => simp at h
  | cons p a ih =>
    rw [List.cons_append, codeFrom_cons, codeFrom_cons]
    cases hp : isVisible p with
    | true => simp
    | false =>
      rw [List.any_cons, hp, Bool.false_or] at h
      simpa using ih h

theorem codeFrom_eq_nil_iff : codeFrom a = [] ↔ a.any isVisible = false := by
  induction a with
  | nil => simp [codeFrom]
  | cons p a ih =>
    rw [codeFrom_cons, List.any_cons]
    cases hp : isVisible p with
    | true => simp
    | false => simpa using ih

theorem not_any_isVisible_of_mark {mark : Mark} (h : mark ≠ .code) (cs : List Char) :
    (cs.map (·, mark)).any isVisible = false := by
  simp [List.any_map, isVisible, h]

theorem not_any_isVisible_of_isBlank (h : ∀ c ∈ cs, isBlank c = true) (mark : Mark) :
    (cs.map (·, mark)).any isVisible = false := by
  rw [List.any_eq_false]
  intro p hp
  obtain ⟨c, hc, rfl⟩ := List.mem_map.1 hp
  simp [isVisible, h c hc]

/-- The scanner stands outside of comments at the first visible code, so the text from there on
decides where it stops. -/
theorem stop_codeFrom (h : codeFrom (scan mode cs) ≠ []) :
    codeFrom (scan mode cs) <:+ cs ∧ stop mode cs = stop .code (codeFrom (scan mode cs)) := by
  fun_induction scan mode cs with
  | case1 => simp [codeFrom] at h
  | case2 cs ih =>
    obtain ⟨hs, ht⟩ := ih h
    exact ⟨hs.trans ((List.suffix_cons _ _).trans (List.suffix_cons _ _)), ht⟩
  | case3 cs ih =>
    obtain ⟨hs, ht⟩ := ih h
    exact ⟨hs.trans ((List.suffix_cons _ _).trans (List.suffix_cons _ _)), ht⟩
  | case4 c cs h₁ h₂ ih =>
    rw [codeFrom_cons] at h ⊢
    cases hv : isVisible (c, .code) with
    | true =>
      rw [if_pos rfl, map_fst_scan]
      exact ⟨List.suffix_refl _, rfl⟩
    | false =>
      rw [hv, if_neg Bool.false_ne_true] at h
      obtain ⟨hs, ht⟩ := ih h
      rw [if_neg Bool.false_ne_true, stop, ht]
      · exact ⟨hs.trans (List.suffix_cons _ _), rfl⟩
      all_goals assumption
  | case5 cs ih =>
    obtain ⟨hs, ht⟩ := ih h
    exact ⟨hs.trans (List.suffix_cons _ _), ht⟩
  | case6 c cs hc ih =>
    obtain ⟨hs, ht⟩ := ih h
    refine ⟨hs.trans (List.suffix_cons _ _), ?_⟩
    rw [stop, ht]
    · rfl
    all_goals assumption
  | case7 cs ih =>
    obtain ⟨hs, ht⟩ := ih h
    exact ⟨hs.trans ((List.suffix_cons _ _).trans (List.suffix_cons _ _)), ht⟩
  | case8 c cs h₁ ih =>
    obtain ⟨hs, ht⟩ := ih h
    refine ⟨hs.trans (List.suffix_cons _ _), ?_⟩
    rw [stop, ht]
    · rfl
    all_goals assumption

/-- A text without comments ends outside of them. -/
theorem stop_eq_code_of_not_any (h : (scan .code cs).any (fun p => p.2 ≠ .code) = false) :
    stop .code cs = .code := by
  induction cs with
  | nil => rfl
  | cons c cs ih =>
    by_cases h₁ : CommentStyle.lineOpen.isPrefixOf (c :: cs) = true
    · obtain ⟨r, hr⟩ := List.isPrefixOf_iff_prefix.1 h₁
      rw [← hr] at h
      simp [CommentStyle.lineOpen, scan] at h
    · by_cases h₂ : CommentStyle.blockOpen.isPrefixOf (c :: cs) = true
      · obtain ⟨r, hr⟩ := List.isPrefixOf_iff_prefix.1 h₂
        rw [← hr] at h
        simp [CommentStyle.blockOpen, scan] at h
      · obtain ⟨hs, ht⟩ := scan_code_cons (Bool.eq_false_iff.2 h₁) (Bool.eq_false_iff.2 h₂)
        rw [hs, List.any_cons, Bool.or_eq_false_iff] at h
        rw [ht]
        exact ih h.2

end Findings.Scanner
