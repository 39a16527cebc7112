import Findings.Proofs.Suppression.InComment
import Mathlib.Data.List.Forall2

/-!
# Markers inside comments that are found

A line gives at most one marker, at its first keyword. The keyword may stand elsewhere on a line
too, in code or in prose, and a line may hold several markers; then the others are passed over.

* `answers_of_first`: a marker that stands first on its line is read, if it is known whether the
  line starts in a block.
* `findsMarkers_iff`: all markers in comments are found for the findings they name iff each entry
  of each of them is asked for by some marker that stands first on its line.
* `not_findsMarkers_mentioned`: a marker behind a name in the code, and one behind its mention in
  the same comment.
-/

namespace Findings.Scanner

open Text CommentStyle SourceFile SourceCache Marker

variable {source : SourceFile} {n : Nat} {hash checker : String} {before marker list rest after
  entry : List Char} {scanned : ScannedLine} {line : Line}

/-- A line gives a marker with a list: one stands at its first keyword, and the line starts in a
block or a comment opens before. -/
def Gives (scanned : ScannedLine) (list : List Char) : Prop :=
  ∃ before marker rest, FirstIn scanned.text before marker list rest ∧
    (scanned.startsInBlock = true ∨ CommentStyle.slashes.opensComment before = true)

/-- The marker that a line gives asks for whatever a marker with this entry asks for. -/
def Answers (scanned : ScannedLine) (entry : List Char) : Prop :=
  ∃ list, Gives scanned list ∧ ∃ named ∈ splitAt ',' list,
    trim named ≠ [] ∧ (.ofList (trim named) = allCheckers ∨ trim named = trim entry)

/-- Every marker inside a comment, on a line that can hold one for line `n` of a file, is found for
every finding that it names. -/
def FindsMarkers (sources : SourceCache) (fs : FileSystem) (path : String) (n : Nat) : Prop :=
  ∀ source hash checker comment, (sources.file fs path).1 = some source →
    HoldsMarker source n hash checker comment →
    (inlineSuppression sources fs path n hash checker).1.isSome

/-! ## Markers that stand first -/

/-- The scanner leaves the code where a comment opens. -/
theorem stop_code_of_not_opensComment {cs : List Char}
    (h : CommentStyle.slashes.opensComment cs = false) : stop .code cs = .code := by
  have hopen : occurs lineOpen cs = false ∧ occurs blockOpen cs = false := by
    simpa [opensComment, hasSlashes, hasHash] using h
  clear h
  induction cs with
  | nil => rfl
  | cons c cs ih =>
    obtain ⟨hl, hb⟩ := hopen
    rw [lineOpen, occurs_cons_eq_false_iff, ← lineOpen] at hl
    rw [blockOpen, occurs_cons_eq_false_iff, ← blockOpen] at hb
    rw [(scan_code_cons hl.1 hb.1).2]
    exact ih ⟨hl.2, hb.2⟩

/-- The scanner and the classification show the same text at the same place. -/
theorem text_eq_of_mem_zip
    (h : (scanned, line) ∈ (candidateLines .slashes source n).zip (candidateScans source n)) :
    scanned.text = dropEnd isLineEnd line.text := by
  have hall : List.Forall₂ (fun scanned line => scanned.text = dropEnd isLineEnd line.text)
      (candidateLines .slashes source n) (candidateScans source n) := by
    rw [← List.forall₂_map_left_iff (f := ScannedLine.text)
        (R := fun text (line : Line) => text = dropEnd isLineEnd line.text),
      ← List.forall₂_map_right_iff (f := fun line : Line => dropEnd isLineEnd line.text),
      map_text_candidateLines]
    exact List.forall₂_refl _
  exact List.forall₂_zip hall h

/-- A marker inside a comment that stands first on its line is read, as far as its entries are not
blank, if it is known that the line starts in a block. -/
theorem answers_of_first
    (h : (scanned, line) ∈ (candidateLines .slashes source n).zip (candidateScans source n))
    (hfirst : FirstIn line.text before marker list rest) (hin : line.Encloses before marker after)
    (hblock : line.startsInBlock = true → scanned.startsInBlock = true)
    (hentry : entry ∈ splitAt ',' list) (hne : trim entry ≠ []) : Answers scanned entry := by
  refine ⟨list, ?_, entry, hentry, hne, .inr rfl⟩
  have htext := text_eq_of_mem_zip h
  obtain ⟨mode, cs, hm, hn, rfl⟩ := exists_readLine_of_mem_candidateScans (List.of_mem_zip h).2
  rw [text_readLine] at htext
  obtain rfl := (text_readLine mode cs).symm.trans hfirst.text_eq
  obtain ⟨hl, blanks, hb, rfl⟩ := hfirst.written
  refine ⟨before, _, dropEnd isLineEnd rest, ⟨?_, hfirst.first, hl, blanks, hb, rfl⟩, ?_⟩
  · -- The bracket at the end of the marker is kept, and with it all that stands before.
    have hkept := dropEnd_append_cons (f := isLineEnd) (c := ']') (by decide)
      (before ++ (keyword ++ (blanks ++ '[' :: list))) rest
    simpa using htext.trans (by simpa using hkept)
  · have hmode := ((encloses_iff hfirst.written hn).1 hin).1
    cases mode with
    | lineComment => exact absurd rfl hm
    | block => exact .inl (hblock rfl)
    | code =>
      refine .inr ?_
      by_contra hopen
      exact hmode (stop_code_of_not_opensComment (Bool.not_eq_true _ ▸ hopen))

/-! ## Markers that are found -/

theorem isSome_markerFor?_slashes_iff :
    (markerFor? .slashes source n hash checker).isSome ↔
      ∃ scanned ∈ candidateLines .slashes source n, ∃ list, Gives scanned list ∧
        ∃ entry ∈ splitAt ',' list, trim entry ≠ [] ∧ Asks entry hash checker := by
  simp only [isSome_markerFor?_iff, ofLine?_eq_some_iff]
  refine exists_congr fun scanned => and_congr_right fun _ => ?_
  constructor
  · rintro ⟨_, ⟨before, marker, list, rest, hfirst, hopen, -, rfl⟩, happlies⟩
    exact ⟨list, ⟨before, marker, rest, hfirst, hopen⟩, (appliesTo_readTargets_iff _).1 happlies⟩
  · rintro ⟨list, ⟨before, marker, rest, hfirst, hopen⟩, entry, hentry, hne, hasks⟩
    have htarget := mem_readTargets_iff.2 ⟨entry, hentry, hne, rfl⟩
    exact ⟨_, ⟨before, marker, list, rest, hfirst, hopen, List.ne_nil_of_mem htarget, rfl⟩,
      (appliesTo_readTargets_iff _).2 ⟨entry, hentry, hne, hasks⟩⟩

/-- What an entry asks for is found a marker for if some line answers the entry. -/
theorem isSome_markerFor?_of_answers (hscanned : scanned ∈ candidateLines .slashes source n)
    (h : Answers scanned entry) (hasks : Asks entry hash checker) :
    (markerFor? .slashes source n hash checker).isSome := by
  obtain ⟨list, hgives, named, hnamed, hne, hall⟩ := h
  refine isSome_markerFor?_slashes_iff.2 ⟨scanned, hscanned, list, hgives, named, hnamed, hne, ?_⟩
  obtain hall | heq := hall
  · exact .inl hall
  · rw [Asks, heq]
    exact hasks

/-- Every marker inside a comment is found for every finding that it names iff each entry of its
list is answered by a line. The line of a marker answers its entries, except blank ones, if no
keyword stands before the marker and it is known whether the line starts in a block. -/
theorem findsMarkers_iff {sources : SourceCache} {fs : FileSystem} {path : String}
    (hstyle : CommentStyle.ofPath path = .slashes)
    (hsource : (sources.file fs path).1 = some source) :
    (FindsMarkers sources fs path n ↔
      ∀ line ∈ candidateScans source n, ∀ before marker list after,
        line.Encloses before marker after → Written list marker → ∀ entry ∈ splitAt ',' list,
          ∃ scanned ∈ candidateLines .slashes source n, Answers scanned entry) ∧
    ∀ scanned line, (scanned, line) ∈
        (candidateLines .slashes source n).zip (candidateScans source n) →
      ∀ before marker list rest after, FirstIn line.text before marker list rest →
        line.Encloses before marker after →
        (line.startsInBlock = true → scanned.startsInBlock = true) →
        ∀ entry ∈ splitAt ',' list, trim entry ≠ [] → Answers scanned entry := by
  have hfound {hash checker : String} :
      (inlineSuppression sources fs path n hash checker).1.isSome =
        (markerFor? .slashes source n hash checker).isSome := by
    rw [isSome_inlineSuppression, hsource, hstyle]
    rfl
  refine ⟨⟨fun h line hline before marker list after hin hw entry hentry => ?_,
    fun h source' hash checker comment hsource' hholds => ?_⟩,
    fun scanned line hmem before marker list rest after hfirst hin hblock entry hentry hne =>
      answers_of_first hmem hfirst hin hblock hentry hne⟩
  · -- A finding that nothing but this entry, or `all`, asks for.
    have hholds : HoldsMarker source n (.ofList (trim entry)) (.ofList (trim entry)) after :=
      ⟨line, hline, before, marker, list, after, hin, hw, ⟨entry, hentry, .inr (.inl rfl)⟩,
        List.infix_refl _⟩
    have hsome := h source _ _ _ hsource hholds
    rw [hfound, isSome_markerFor?_slashes_iff] at hsome
    obtain ⟨scanned, hscanned, list', hgives, named, hnamed, hne, hasks⟩ := hsome
    refine ⟨scanned, hscanned, list', hgives, named, hnamed, hne, ?_⟩
    rcases hasks with hall | heq | heq
    · exact .inl hall
    · exact .inr (String.ofList_injective heq)
    · exact .inr (String.ofList_injective heq)
  · obtain rfl := Option.some.inj (hsource.symm.trans hsource')
    obtain ⟨line, hline, before, marker, list, after, hin, hw, ⟨entry, hentry, hasks⟩, -⟩ := hholds
    obtain ⟨scanned, hscanned, hanswers⟩ :=
      h line hline before marker list after hin hw entry hentry
    rw [hfound]
    exact isSome_markerFor?_of_answers hscanned hanswers hasks

/-- The second line has its marker behind another comment. -/
theorem findsMarkers_behindComment :
    let path := "src/a.c"
    let text := "int a;\nx = 1 / y; /* b */ // quell_suppress [k, all] c\n"
    let source := SourceFile.ofContent text
    let sources := SourceCache.empty.add path text
    let fs := FileSystem.empty []
    let before := "x = 1 / y; /* b */ // ".toList
    let marker := "quell_suppress [k, all]".toList
    let rest := " c".toList
    CommentStyle.ofPath path = .slashes ∧ (sources.file fs path).1 = some source ∧
      (FindsMarkers sources fs path 2 ↔
        ∀ line ∈ candidateScans source 2, ∀ before marker list after,
          line.Encloses before marker after → Written list marker → ∀ entry ∈ splitAt ',' list,
            ∃ scanned ∈ candidateLines .slashes source 2, Answers scanned entry) ∧
      Answers ⟨before ++ (marker ++ rest), false, false⟩ " all".toList := by
  intro path text source sources fs before marker rest
  have hstyle : CommentStyle.ofPath path = .slashes := by decide
  have hsource : (sources.file fs path).1 = some source := file_add_self _ _ _ _
  obtain ⟨hiff, hanswers⟩ := findsMarkers_iff (n := 2) hstyle hsource
  refine ⟨hstyle, hsource, hiff, ?_⟩
  have hw : Written "k, all".toList marker :=
    ⟨by decide, [' '], List.forall_mem_singleton.2 (by decide), rfl⟩
  have hin : (readLine .code (before ++ (marker ++ rest))).Encloses before marker rest :=
    (encloses_iff hw (by decide)).2 ⟨by decide, by decide, by decide⟩
  exact hanswers ⟨before ++ (marker ++ rest), false, false⟩ _ (by decide +kernel) _ _ _ _ _
    ⟨text_readLine _ _, by decide, hw⟩ hin (by decide) _ (by decide) (by decide)

/-- A name in the code is taken for the keyword of the marker behind it, and so is the mention of
the keyword in the same comment. -/
theorem not_findsMarkers_mentioned :
    let path := "src/a.c"
    let text := "int quell_suppress; // quell_suppress [all] a\n" ++
      "int b; // quell_suppress is on: quell_suppress [all] b\n"
    let source := SourceFile.ofContent text
    let found (n : Nat) :=
      (inlineSuppression (SourceCache.empty.add path text) (FileSystem.empty []) path n "h" "k").1
    HoldsMarker source 1 "h" "k" "a".toList ∧ found 1 = none ∧
      HoldsMarker source 2 "h" "k" "b".toList ∧ found 2 = none := by
  intro path text source found
  have hw : Written "all".toList "quell_suppress [all]".toList :=
    ⟨by decide, [' '], List.forall_mem_singleton.2 (by decide), rfl⟩
  have hnames : Names "all".toList "h" "k" := ⟨"all".toList, by decide, .inl (by decide)⟩
  have hfirst : (readLine .code ("int quell_suppress; // ".toList ++
      ("quell_suppress [all]".toList ++ " a".toList))).Encloses "int quell_suppress; // ".toList
        "quell_suppress [all]".toList " a".toList :=
    (encloses_iff hw (by decide)).2 ⟨by decide, by decide, by decide⟩
  have hsecond : (readLine .code ("int b; // quell_suppress is on: ".toList ++
      ("quell_suppress [all]".toList ++ " b".toList))).Encloses
        "int b; // quell_suppress is on: ".toList "quell_suppress [all]".toList " b".toList :=
    (encloses_iff hw (by decide)).2 ⟨by decide, by decide, by decide⟩
  refine ⟨⟨_, ?_, _, _, _, _, hfirst, hw, hnames, by decide⟩, by decide +kernel,
    ⟨_, ?_, _, _, _, _, hsecond, hw, hnames, by decide⟩, by decide +kernel⟩
  · decide +kernel
  · decide +kernel

end Findings.Scanner
