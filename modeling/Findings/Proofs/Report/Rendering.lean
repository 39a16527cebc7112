import Findings.Proofs.Bundle.Filtering
import Findings.Proofs.Report.Sink
import Findings.Proofs.Report.Writing

/-!
# Reports as texts

What a report writes does not depend on the sink, only how much of it arrives there. What is written
for a finding, and whether it is, are functions of the sources it looks up: of any `lookup` that
agrees with the cache in the end.

* `Writes`: what an action writes to any sink; `Renders`: the same, as a function of the sources.
* `renders_block`: the text of a finding.
* `judge_fst_of_agrees`: what becomes of it. `judge_eq`: what judging it looks up for that.
* `writes_finding`: both together, for one finding of a report.
-/

namespace Findings

/-! ## The text of a finding, and what becomes of it -/

/-- `name:line:column: message`. The name is the last one of a path. -/
def placeText (entry : String) (location : Location) (message : String) : String :=
  FilePath.basename entry ++ ":" ++ toString location.line ++ ":" ++ toString location.col ++
    ": " ++ message

/-- `[severity] name:line:column: message [checker]`. -/
def headerText (severity checker entry : String) (location : Location) (message : String) :
    String :=
  "[" ++ severity ++ "] " ++ placeText entry location message ++ " [" ++ checker ++ "]"

/-- A step under a number: `    number, name:line:column: message`. -/
def stepLineText (width number : Nat) (entry : String) (location : Location) (message : String) :
    String :=
  "    " ++ Layout.alignRight width number ++ ", " ++ placeText entry location message

theorem Layout.header_eq (severity checker entry : String) (location : Location)
    (message : String) :
    header severity checker entry location message =
      headerText severity checker entry location message :=
  rfl

theorem Layout.stepLine_eq (width number : Nat) (entry : String) (location : Location)
    (message : String) :
    stepLine width number entry location message =
      stepLineText width number entry location message :=
  rfl

namespace Enricher

variable (enricher : Enricher) (lookup : String → Option SourceFile)

/-- The source line of a location and a caret, if `lookup` has that line. -/
def contextText (entry : String) (location : Location) : String :=
  match (lookup (enricher.resolve entry)).bind (·.line? location.line.toNat) with
  | some line => Layout.caretBlock line location.col.toNat ++ "\n"
  | none => ""

/-- Numbered steps. A step outside the file table only takes a number. -/
def stepsText (files : FileTable) (width : Nat) : (number : Nat) → List (Location × String) →
    String
  | _, [] => ""
  | number, (location, message) :: rest =>
    match files.get? location.file with
    | none => stepsText files width (number + 1) rest
    | some entry =>
      stepLineText width number entry location message ++ "\n" ++
        (enricher.contextText lookup entry location ++ stepsText files width (number + 1) rest)

end Enricher

/-- Whether a finding with this verdict is written and counted. -/
def Verdict.isShown : Verdict → Bool
  | shown _ _ => true
  | _ => false

theorem Verdict.isShown_iff {verdict : Verdict} :
    verdict.isShown = true ↔ ∃ entry displayFile, verdict = .shown entry displayFile := by
  cases verdict <;> simp [isShown]

/-- The file that a finding with one is counted under. -/
def Finding.displayFile (files : FileTable) (finding : Finding) : String :=
  (finding.displayFile? files).getD ""

namespace Formatter

variable (formatter : Formatter) (files : FileTable) (lookup : String → Option SourceFile)

/-- The severity that a finding is counted under. -/
def severityOf (finding : Finding) : String :=
  formatter.severities.severityOf finding.checkerName

/-- The steps of a finding, if they are listed. -/
def stepListText (finding : Finding) : String :=
  if formatter.printSteps then
    s!"  Report hash: {finding.identityHash}\n" ++ "  Steps:\n" ++
      formatter.enricher.stepsText lookup files (toString finding.locatedEvents.length).length 1
        finding.locatedEvents
  else ""

/-- What is written for a finding that is shown: its place and message, the source line, the steps,
and a blank line. -/
def blockText (finding : Finding) : String :=
  match files.get? finding.anchor.1.file with
  | none => ""
  | some entry =>
    headerText (formatter.severityOf finding) finding.checkerName entry finding.anchor.1
        finding.anchor.2 ++ "\n" ++
      formatter.enricher.contextText lookup entry finding.anchor.1 ++
      formatter.stepListText files lookup finding ++ "\n"

/-- What becomes of a finding, given the sources. -/
def verdict (finding : Finding) : Verdict :=
  match finding.displayFile? files with
  | none => .outsideTable
  | some displayFile =>
    if formatter.policy.any (· displayFile) then .excluded
    else if formatter.store.any (·.isSuppressed finding.identityHash displayFile) then .suppressed
    else
      let location := finding.anchor.1
      match files.get? location.file with
      | none => .withoutAnchor
      | some entry =>
        let path := formatter.enricher.resolve entry
        let marker := (lookup path).bind fun source =>
          markerFor? (.ofPath path) source location.line.toNat finding.identityHash
            finding.checkerName
        if marker.isSome then .marked else .shown entry displayFile

/-- Whether a finding is shown. -/
def survives (finding : Finding) : Bool :=
  match formatter.verdict files lookup finding with
  | .shown _ _ => true
  | _ => false

/-- Whether nothing is ever added to the store of a formatter. -/
def ReadOnly : Prop :=
  ∀ store ∈ formatter.store, store.writableFile? = none

/-- Whether two formatters lay findings out alike. -/
structure Alike (formatter other : Formatter) : Prop where
  enricher : other.enricher = formatter.enricher
  printSteps : other.printSteps = formatter.printSteps
  severities : other.severities = formatter.severities

end Formatter

namespace Writing

variable {α β : Type}

/-! ## What actions write -/

/-- Whatever the sink is, an action writes `text` and goes on from `after` with `a`, or it writes as
much as the sink takes and ends. -/
structure Writes (action : Writing α) (pass : Pass) (text : String) (a : α) (after : Pass) :
    Prop where
  fits : ∀ sink, (sink.write text).1 = true →
    action.run { pass with sink } = (.ok a, { after with sink := (sink.write text).2 })
  full : ∀ sink, (sink.write text).1 = false → ∃ stopped : Pass,
    action.run { pass with sink } =
      (.error (.output Sink.fullMessage), { stopped with sink := (sink.write text).2 })

variable {action : Writing α} {next : α → Writing β} {pass mid after : Pass} {text rest : String}
  {a : α} {b : β}

theorem Writes.pure (a : α) (pass : Pass) : Writes (Pure.pure a) pass "" a pass where
  fits sink _ := by
    rw [Sink.write_empty]
    rfl
  full sink h := by
    rw [Sink.write_empty] at h
    cases h

theorem Writes.bind (ha : Writes action pass text a mid) (hn : Writes (next a) mid rest b after) :
    Writes (action >>= next) pass (text ++ rest) b after where
  fits sink h := by
    cases ht : (sink.write text).1 with
    | false =>
      rw [Sink.write_append_of_full ht] at h
      cases h
    | true =>
      rw [Sink.write_append_of_fits ht] at h ⊢
      rw [run_bind, ha.fits sink ht]
      exact hn.fits _ h
  full sink h := by
    cases ht : (sink.write text).1 with
    | false =>
      obtain ⟨stopped, hs⟩ := ha.full sink ht
      rw [Sink.write_append_of_full ht, run_bind, hs]
      exact ⟨stopped, rfl⟩
    | true =>
      rw [Sink.write_append_of_fits ht] at h ⊢
      rw [run_bind, ha.fits sink ht]
      exact hn.full _ h

/-- An action may look at the pass, but for the sink. -/
theorem Writes.get_bind {next : Pass → Writing β} (hn : ∀ sink, next { pass with sink } = next pass)
    (h : Writes (next pass) pass text b after) : Writes (get >>= next) pass text b after where
  fits sink ht := by
    rw [run_bind, run_get]
    dsimp only
    rw [hn sink]
    exact h.fits sink ht
  full sink ht := by
    rw [run_bind, run_get]
    dsimp only
    rw [hn sink]
    exact h.full sink ht

/-- How writing a text ends. -/
theorem Writes.outcome (h : Writes action pass text a after) (sink : Sink) :
    (action.run { pass with sink }).1 =
        (if (sink.write text).1 then .ok a else .error (.output Sink.fullMessage)) ∧
      (action.run { pass with sink }).2.sink = (sink.write text).2 := by
  cases hfits : (sink.write text).1 with
  | true =>
    rw [h.fits sink hfits]
    exact ⟨rfl, rfl⟩
  | false =>
    obtain ⟨stopped, hs⟩ := h.full sink hfits
    rw [hs]
    exact ⟨rfl, rfl⟩

theorem writes_emit (text : String) (pass : Pass) : Writes (emit text) pass text () pass where
  fits sink h := by
    rw [run_emit]
    simp only [h, if_true]
  full sink h := by
    rw [run_emit]
    simp only [h, Bool.false_eq_true, if_false]
    exact ⟨pass, rfl⟩

/-! ## Texts as functions of the sources -/

variable (formatter : Formatter) (files : FileTable)

/-- From every pass of a formatter, an action writes a text that is a function of the sources it
looks up, and changes nothing but the cache. -/
def Renders (action : Writing Unit) (text : (String → Option SourceFile) → String) : Prop :=
  ∀ pass : Pass, formatter.Alike pass.formatter →
    ∃ earlier ⊆ formatter.enricher.sourcePaths files, ∀ lookup,
      (pass.formatter.sources.after pass.fs earlier).Agrees
          (formatter.enricher.sourcePaths files) lookup →
        Writes action pass (text lookup) ()
          (pass.withSources (pass.formatter.sources.after pass.fs earlier))

variable {formatter files} {actions : Writing Unit} {action : Writing Unit}
  {text rest : (String → Option SourceFile) → String}

theorem Renders.pure : Renders formatter files (Pure.pure ()) fun _ => "" :=
  fun pass _ => ⟨[], List.nil_subset _, fun _ _ => .pure () pass⟩

theorem renders_emit (text : String) : Renders formatter files (emit text) fun _ => text :=
  fun pass _ => ⟨[], List.nil_subset _, fun _ _ => writes_emit text pass⟩

theorem Renders.bind (ha : Renders formatter files action text)
    (hn : Renders formatter files actions rest) :
    Renders formatter files (action >>= fun _ => actions)
      fun lookup => text lookup ++ rest lookup := by
  intro pass hp
  obtain ⟨earlier, he, ha⟩ := ha pass hp
  obtain ⟨later, hl, hn⟩ := hn (pass.withSources (pass.formatter.sources.after pass.fs earlier))
    ⟨hp.enricher, hp.printSteps, hp.severities⟩
  refine ⟨earlier ++ later, List.append_subset.2 ⟨he, hl⟩, fun lookup hagrees => ?_⟩
  rw [SourceCache.after_append] at hagrees ⊢
  exact .bind (ha lookup hagrees.of_after) (hn lookup hagrees)

theorem Renders.congr (h : Renders formatter files action text)
    (he : ∀ lookup, text lookup = rest lookup) : Renders formatter files action rest :=
  (funext he : text = rest) ▸ h

theorem renders_context {entry : String} (he : entry ∈ files.paths) (location : Location) :
    Renders formatter files (context entry location)
      fun lookup => formatter.enricher.contextText lookup entry location := by
  intro pass hp
  have hmem : formatter.enricher.resolve entry ∈ formatter.enricher.sourcePaths files :=
    List.mem_map_of_mem he
  refine ⟨[formatter.enricher.resolve entry], by simpa using hmem, fun lookup hagrees => ?_⟩
  have hfile : (pass.formatter.sources.file pass.fs (formatter.enricher.resolve entry)).1 =
      lookup (formatter.enricher.resolve entry) := SourceCache.Agrees.file hagrees hmem
  have hrun (sink : Sink) : (context entry location).run { pass with sink } =
      (match (lookup (formatter.enricher.resolve entry)).bind (·.line? location.line.toNat) with
        | some line => emit (Layout.caretBlock line location.col.toNat ++ "\n")
        | none => Pure.pure () : Writing Unit).run
        { pass.withSources (pass.formatter.sources.after pass.fs
          [formatter.enricher.resolve entry]) with sink } := by
    rw [run_context]
    simp only [hp.enricher, SourceCache.line, hfile]
    rfl
  change Writes _ _ (formatter.enricher.contextText lookup entry location) _ _
  unfold Enricher.contextText
  cases hline : (lookup (formatter.enricher.resolve entry)).bind (·.line? location.line.toNat) with
  | none =>
    simp only [hline] at hrun
    have hpure := Writes.pure () (pass.withSources (pass.formatter.sources.after pass.fs
      [formatter.enricher.resolve entry]))
    exact ⟨fun sink h => (hrun sink).trans (hpure.fits sink h),
      fun sink h => hrun sink ▸ hpure.full sink h⟩
  | some line =>
    simp only [hline] at hrun
    have hemit := writes_emit (Layout.caretBlock line location.col.toNat ++ "\n")
      (pass.withSources (pass.formatter.sources.after pass.fs
        [formatter.enricher.resolve entry]))
    exact ⟨fun sink h => (hrun sink).trans (hemit.fits sink h),
      fun sink h => hrun sink ▸ hemit.full sink h⟩

theorem renders_steps (width number : Nat) (located : List (Location × String)) :
    Renders formatter files (steps files width number located)
      fun lookup => formatter.enricher.stepsText lookup files width number located := by
  induction located generalizing number with
  | nil => exact .pure
  | cons step rest ih =>
    obtain ⟨location, message⟩ := step
    unfold steps Enricher.stepsText
    cases he : files.get? location.file with
    | none => exact (Renders.pure.bind (ih (number + 1))).congr fun _ => String.empty_append
    | some entry =>
      have hentry := FileTable.mem_paths_of_get? he
      simp only [← Layout.stepLine_eq]
      exact (renders_emit _).bind ((renders_context hentry location).bind (ih (number + 1)))

/-- An action may look at the layout of a pass. -/
theorem Renders.get_bind {next : Pass → Writing Unit} (h : Renders formatter files action text)
    (hn : ∀ pass : Pass, formatter.Alike pass.formatter → next pass = action) :
    Renders formatter files (get >>= next) text := by
  intro pass hp
  obtain ⟨earlier, he, h⟩ := h pass hp
  refine ⟨earlier, he, fun lookup hagrees => ?_⟩
  have hsame (sink : Sink) : next { pass with sink } = next pass := by
    rw [hn pass hp, hn { pass with sink } ⟨hp.enricher, hp.printSteps, hp.severities⟩]
  exact .get_bind hsame (hn pass hp ▸ h lookup hagrees)

theorem renders_stepList (finding : Finding) (hs : formatter.printSteps = true) :
    Renders formatter files (stepList files finding)
      fun lookup => formatter.stepListText files lookup finding := by
  refine ((renders_emit s!"  Report hash: {finding.identityHash}\n").bind
    ((renders_emit "  Steps:\n").bind (renders_steps _ 1 finding.locatedEvents))).congr
      fun lookup => ?_
  simp only [Formatter.stepListText, hs, if_true, String.append_assoc]

/-- The text of a finding that is shown. -/
theorem renders_block {finding : Finding} {entry : String}
    (he : files.get? finding.anchor.1.file = some entry) :
    Renders formatter files
      (block files finding (formatter.severityOf finding) entry)
      fun lookup => formatter.blockText files lookup finding := by
  have hsteps : Renders formatter files
      (if formatter.printSteps then stepList files finding else Pure.pure ())
      fun lookup => formatter.stepListText files lookup finding := by
    by_cases hs : formatter.printSteps = true
    · rw [if_pos hs]
      exact renders_stepList finding hs
    · rw [if_neg hs]
      exact Renders.pure.congr fun lookup => by rw [Formatter.stepListText, if_neg hs]
  have hend : Renders formatter files (do
      if (← get).formatter.printSteps then stepList files finding
      emit "\n") fun lookup => formatter.stepListText files lookup finding ++ "\n" := by
    refine Renders.get_bind (hsteps.bind (renders_emit "\n")) fun pass hp => ?_
    rw [hp.printSteps]
    split <;> rfl
  have hentry := FileTable.mem_paths_of_get? he
  refine ((renders_emit _).bind ((renders_context hentry finding.anchor.1).bind hend)).congr
    fun lookup => ?_
  simp only [Formatter.blockText, he, ← Layout.header_eq, String.append_assoc]
  rfl

/-! ## What becomes of a finding -/

section Judging

variable (formatter files) (pass : Pass) (finding : Finding)

theorem promote_of_readOnly (h : pass.formatter.ReadOnly) (found : InlineSuppression) :
    pass.promote found = pass := by
  cases hs : pass.formatter.store with
  | none => simp only [Pass.promote, hs]
  | some store =>
    have hadd : store.add pass.fs found.hash found.fileName found.comment =
        (.ok (), store, pass.fs) := by
      simp only [SuppressionStore.add, SuppressionStore.change, h store hs]
    simp only [Pass.promote, hs, hadd]
    rw [← hs]

theorem promote_sink (found : InlineSuppression) (sink : Sink) :
    ({ pass with sink } : Pass).promote found = { pass.promote found with sink } := by
  unfold Pass.promote
  cases pass.formatter.store with
  | none => rfl
  | some store =>
    dsimp only
    rcases store.add pass.fs found.hash found.fileName found.comment with ⟨_ | _, _, _⟩ <;> rfl

/-- Judging does not look at the sink. -/
theorem judge_sink (sink : Sink) : ({ pass with sink } : Pass).judge files finding =
    ((pass.judge files finding).1, { (pass.judge files finding).2 with sink }) := by
  obtain ⟨hverdict, hafter⟩ := pass.judge_rel (R := fun pass other => other = { pass with sink })
    { pass with sink } files finding rfl (fun _ _ => rfl) (fun _ => rfl) (fun _ _ => ⟨rfl, rfl⟩)
    (fun _ => rfl) fun first _ found h => h ▸ promote_sink first found sink
  exact Prod.ext hverdict.symm hafter

theorem isSome_marker?_of_agrees {entry : String} {lookup : String → Option SourceFile}
    (he : files.get? finding.anchor.1.file = some entry)
    (ha : (pass.lookedUp entry).formatter.sources.Agrees
      (pass.formatter.enricher.sourcePaths files) lookup) :
    let path := pass.formatter.enricher.resolve entry
    (pass.marker? finding entry).isSome =
      ((lookup path).bind fun source => markerFor? (.ofPath path) source
        finding.anchor.1.line.toNat finding.identityHash finding.checkerName).isSome := by
  dsimp only
  rw [Pass.marker?, isSome_inlineSuppression,
    SourceCache.Agrees.file ha (Enricher.resolve_mem_sourcePaths _ he)]

/-- What becomes of a finding is a function of the sources. -/
theorem judge_fst_of_agrees {lookup : String → Option SourceFile}
    (ha : (pass.judge files finding).2.formatter.sources.Agrees
      (pass.formatter.enricher.sourcePaths files) lookup) :
    (pass.judge files finding).1 = pass.formatter.verdict files lookup finding := by
  unfold Formatter.verdict
  obtain ⟨verdict, hj⟩ := exists_judged files pass finding
  cases hj with
  | outsideTable hd => rw [Pass.judge_of_outsideTable hd, hd]
  | excluded hd hx =>
    rw [Pass.judge_of_excluded hd hx]
    simp only [Pass.excludes] at hx
    simp only [hd, hx, if_true]
  | suppressed hd hx hs =>
    rw [Pass.judge_of_suppressed hd hx hs]
    simp only [Pass.excludes, Pass.suppresses] at hx hs
    simp only [hd, hx, hs, if_true, if_false, Bool.false_eq_true]
  | withoutAnchor hd hx hs he =>
    rw [Pass.judge_of_withoutAnchor hd hx hs he]
    simp only [Pass.excludes, Pass.suppresses] at hx hs
    simp only [hd, hx, hs, he, if_false, Bool.false_eq_true]
  | @marked _ entry hd hx hs he hm =>
    obtain ⟨found, hfound⟩ := Option.isSome_iff_exists.1 hm
    obtain ⟨store, fs, log, hp⟩ := (pass.lookedUp entry).promote_eq found
    rw [Pass.judge_of_marked hd hx hs he hfound, hp] at ha
    rw [Pass.judge_of_marked hd hx hs he hfound]
    simp only [Pass.excludes, Pass.suppresses] at hx hs
    simp only [hd, hx, hs, he, ← isSome_marker?_of_agrees files pass finding he ha, hm, if_true,
      if_false, Bool.false_eq_true]
  | shown hd hx hs he hm =>
    rw [Pass.judge_of_shown hd hx hs he hm] at ha ⊢
    have hmarker := isSome_marker?_of_agrees files pass finding he ha
    simp only [Pass.excludes, Pass.suppresses] at hx hs
    simp only [hd, hx, hs, he, ← hmarker, hm, Option.isSome_none, if_false, Bool.false_eq_true]

/-- Unless a finding is marked, judging it changes only the cache and the log. -/
theorem judge_eq :
    ∃ earlier ⊆ pass.formatter.enricher.sourcePaths files,
      let sources := pass.formatter.sources.after pass.fs earlier
      (∀ lookup, sources.Agrees (pass.formatter.enricher.sourcePaths files) lookup →
        (pass.judge files finding).1 = pass.formatter.verdict files lookup finding) ∧
      ((∃ log, (pass.judge files finding).2 = { pass.withSources sources with log }) ∨
        ∃ found, (pass.judge files finding).1 = .marked ∧
          (pass.judge files finding).2 = (pass.withSources sources).promote found) := by
  obtain ⟨-, earlier, he, log, hj⟩ | ⟨displayFile, entry, found, -, -, he, -, hj⟩ :=
    pass.judge_cases files finding
  · refine ⟨earlier, he, fun lookup ha => judge_fst_of_agrees files pass finding ?_, .inl ⟨log, hj⟩⟩
    rwa [hj]
  · obtain ⟨store, fs, log, hp⟩ := (pass.lookedUp entry).promote_eq found
    refine ⟨[pass.formatter.enricher.resolve entry],
      List.cons_subset.2 ⟨Enricher.resolve_mem_sourcePaths _ he, List.nil_subset _⟩,
      fun lookup ha => judge_fst_of_agrees files pass finding ?_, .inr ⟨found, ?_, ?_⟩⟩
    · rw [hj, hp]
      exact ha
    · rw [hj]
    · rw [hj]
      rfl

variable {formatter files pass finding}

theorem survives_iff {lookup : String → Option SourceFile} :
    formatter.survives files lookup finding = true ↔
      ∃ entry displayFile, formatter.verdict files lookup finding = .shown entry displayFile := by
  unfold Formatter.survives
  split
  · rename_i entry displayFile h
    exact ⟨fun _ => ⟨entry, displayFile, h⟩, fun _ => rfl⟩
  · rename_i h
    simpa using h

/-- Writing a finding that is shown is writing its text. -/
theorem writes_finding_of_shown {judged after : Pass} {text entry displayFile : String}
    (hj : pass.judge files finding = (.shown entry displayFile, judged))
    (hd : finding.displayFile? files = some displayFile)
    (hw : Writes (block files finding (judged.formatter.severityOf finding) entry)
      { judged with
        stats := judged.stats.record (judged.formatter.severityOf finding)
          (finding.displayFile files) } text () after) :
    Writes (Writing.finding files finding) pass text () after := by
  have hrun (sink : Sink) : (Writing.finding files finding).run { pass with sink } =
      (block files finding (judged.formatter.severityOf finding) entry).run
        { judged with
          stats := judged.stats.record (judged.formatter.severityOf finding)
            (finding.displayFile files)
          sink } := by
    have hs := judge_sink files pass finding sink
    rw [hj] at hs
    rw [run_finding_of_shown hs, Finding.displayFile, hd]
    rfl
  exact ⟨fun sink h => (hrun sink).trans (hw.fits sink h),
    fun sink h => hrun sink ▸ hw.full sink h⟩

/-- Any other finding writes nothing. -/
theorem writes_finding_of_not_shown
    (h : ∀ entry displayFile, (pass.judge files finding).1 ≠ .shown entry displayFile) :
    Writes (Writing.finding files finding) pass "" () (pass.judge files finding).2 := by
  have hrun (sink : Sink) : (Writing.finding files finding).run { pass with sink } =
      (.ok (), { (pass.judge files finding).2 with sink }) := by
    have hs := judge_sink files pass finding sink
    rw [run_finding_of_not_shown (by rw [hs]; exact h), hs]
  constructor
  · intro sink _
    rw [hrun, Sink.write_empty]
  · intro sink hfull
    rw [Sink.write_empty] at hfull
    cases hfull

variable (files pass finding)

/-- A finding is shown or not, as the sources say. If it is, it is written and counted, and else at
most a suppression is added. -/
theorem writes_finding :
    ∃ earlier ⊆ pass.formatter.enricher.sourcePaths files,
      let sources := pass.formatter.sources.after pass.fs earlier
      ((pass.judge files finding).1.isShown = true ∧ ∃ log, ∀ lookup,
        sources.Agrees (pass.formatter.enricher.sourcePaths files) lookup →
          pass.formatter.survives files lookup finding = true ∧
            Writes (Writing.finding files finding) pass
              (pass.formatter.blockText files lookup finding) ()
              { pass.withSources sources with
                stats := pass.stats.record (pass.formatter.severityOf finding)
                  (finding.displayFile files)
                log }) ∨
      (pass.judge files finding).1.isShown = false ∧ ∃ after,
        (∀ lookup, sources.Agrees (pass.formatter.enricher.sourcePaths files) lookup →
          pass.formatter.survives files lookup finding = false ∧
            Writes (Writing.finding files finding) pass "" () after) ∧
        ((∃ log, after = { pass.withSources sources with log }) ∨
          ∃ found, after = (pass.withSources sources).promote found) := by
  obtain ⟨earlier, he, hverdict, hafter⟩ := judge_eq files pass finding
  rcases hj : pass.judge files finding with ⟨verdict, judged⟩
  rw [hj] at hverdict hafter
  cases hshown : verdict.isShown with
  | true =>
    obtain ⟨entry, displayFile, rfl⟩ := Verdict.isShown_iff.1 hshown
    obtain ⟨log, rfl⟩ | ⟨found, hmarked, -⟩ := hafter
    case inr => cases hmarked
    have hjudged := judged files pass finding
    rw [hj] at hjudged
    obtain ⟨hd, hent⟩ := hjudged.of_shown
    let sources := pass.formatter.sources.after pass.fs earlier
    obtain ⟨later, hl, hw⟩ := renders_block hent
      { pass.withSources sources with
        stats := pass.stats.record (pass.formatter.severityOf finding) (finding.displayFile files)
        log } ⟨rfl, rfl, rfl⟩
    have hagain : (pass.formatter.sources.after pass.fs earlier).after pass.fs later =
        pass.formatter.sources.after pass.fs (earlier ++ later) :=
      (SourceCache.after_append earlier later).symm
    refine ⟨earlier ++ later, List.append_subset.2 ⟨he, hl⟩, .inl ⟨rfl, log, fun lookup ha => ?_⟩⟩
    rw [← hagain] at ha ⊢
    exact ⟨survives_iff.2 ⟨entry, displayFile, (hverdict lookup ha.of_after).symm⟩,
      writes_finding_of_shown hj hd (hw lookup ha)⟩
  | false =>
    have hnot (entry displayFile : String) : verdict ≠ .shown entry displayFile := by
      rintro rfl
      cases hshown
    refine ⟨earlier, he, .inr ⟨rfl, judged, fun lookup ha => ⟨?_, ?_⟩, ?_⟩⟩
    · rw [← Bool.not_eq_true, survives_iff, ← hverdict lookup ha]
      rintro ⟨entry, displayFile, hs⟩
      exact hnot entry displayFile hs
    · have hw := writes_finding_of_not_shown (by rw [hj]; exact hnot)
      rwa [hj] at hw
    · exact hafter.imp_right fun ⟨found, _, hp⟩ => ⟨found, hp⟩

end Judging

end Writing

end Findings
