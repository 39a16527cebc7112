import Findings.Proofs.Report.Exclusion
import Findings.Proofs.Report.Turns

/-!
# The report of a bundle

Whatever the store and the sink, a report of a bundle shows some of its findings, and its statistics
are those of the findings it shows.

* `exists_writes_all`: this, for findings.
* `exists_prints`: this, for a bundle that can be read.
-/

namespace Findings

/-- Whether the files that a finding is shown and counted under are in the table. -/
def Finding.InTable (files : FileTable) (finding : Finding) : Prop :=
  (finding.displayFile? files).isSome ∧ (files.get? finding.anchor.1.file).isSome

theorem Finding.InTable.of_isShown {files : FileTable} {pass : Pass} {finding : Finding}
    (h : (pass.judge files finding).1.isShown = true) : finding.InTable files := by
  obtain ⟨entry, displayFile, hv⟩ := Verdict.isShown_iff.1 h
  have hj := judged files pass finding
  rw [hv] at hj
  cases hj with
  | shown hd _ _ he _ => exact ⟨by rw [hd]; rfl, by rw [he]; rfl⟩

namespace Writing

variable (files : FileTable)

/-- A report shows some of the findings, and counts these. -/
theorem exists_writes_all (pass : Pass) (hstats : pass.stats = .empty) (findings : List Finding)
    (analyzed : Option String) :
    ∃ shown lookup after, shown.Sublist findings ∧ (∀ finding ∈ shown, finding.InTable files) ∧
      Writes (all files findings analyzed) pass
        (pass.formatter.textOf files lookup shown analyzed) (pass.formatter.statsOf files shown)
        after := by
  -- Which findings are shown does not depend on the sink.
  let start := { pass with sink := {} }
  obtain ⟨lookup, after, hw⟩ := writes_shown files start rfl hstats findings analyzed
  refine ⟨start.shown files findings, lookup, after, start.shown_sublist files findings, ?_,
    ⟨hw.fits, hw.full⟩⟩
  intro finding hf
  obtain ⟨turn, ht, rfl⟩ := List.mem_map.1 hf
  exact .of_isShown (List.mem_filter.1 ht).2

end Writing

namespace Formatter

variable (formatter : Formatter) (fs : FileSystem) (path : String) (analyzed : Option String)

/-- What is said when a bundle is read. -/
def readingLog : Log :=
  (formatter.enricher.readPath fs path formatter.sources).2.1

/-- A bundle that can be read has the report of its findings, after what was said when it was read.
-/
theorem reportBundle_eq (sink : Sink) (h : (formatter.reading fs path).failure = none) :
    formatter.reportBundle fs sink path analyzed =
      let written := (Writing.all (formatter.reading fs path).files
        (formatter.reading fs path).findings analyzed).run (formatter.start fs sink path)
      (written.1, { written.2 with log := formatter.readingLog fs path ++ written.2.log }) := by
  rw [reading] at h
  simp only [reportBundle, h]
  rfl

/-- Whatever the sink is, the report of a bundle is `text` and ends with `result` and a pass after
it, or it is as much of the text as the sink takes. -/
structure Prints (text : String) (result : Except ReportError Stats) (after : Pass) : Prop where
  fits : ∀ sink, (sink.write text).1 = true →
    formatter.reportBundle fs sink path analyzed =
      (result, { after with sink := (sink.write text).2 })
  full : ∀ sink, (sink.write text).1 = false → ∃ stopped : Pass,
    formatter.reportBundle fs sink path analyzed =
      (.error (.output Sink.fullMessage), { stopped with sink := (sink.write text).2 })

variable {formatter fs path}

/-- What the findings of a bundle write is its report. -/
theorem Prints.of_writes {text : String} {stats : Stats} {after : Pass}
    (h : (formatter.reading fs path).failure = none)
    (hw : Writing.Writes (Writing.all (formatter.reading fs path).files
      (formatter.reading fs path).findings analyzed) (formatter.start fs {} path) text stats
      after) :
    formatter.Prints fs path analyzed text (.ok stats)
      { after with log := formatter.readingLog fs path ++ after.log } where
  fits sink hfits := by
    rw [reportBundle_eq formatter fs path analyzed sink h]
    dsimp only
    have hrun := hw.fits sink hfits
    rw [show (Writing.all _ _ analyzed).run (formatter.start fs sink path) = _ from hrun]
  full sink hfull := by
    rw [reportBundle_eq formatter fs path analyzed sink h]
    dsimp only
    obtain ⟨stopped, hrun⟩ := hw.full sink hfull
    rw [show (Writing.all _ _ analyzed).run (formatter.start fs sink path) = _ from hrun]
    exact ⟨{ stopped with log := formatter.readingLog fs path ++ stopped.log }, rfl⟩

/-- The report of a bundle that can be read shows some of its findings and counts these. -/
theorem exists_prints (h : (formatter.reading fs path).failure = none) :
    ∃ shown lookup after, shown.Sublist (formatter.reading fs path).findings ∧
      (∀ finding ∈ shown, finding.InTable (formatter.reading fs path).files) ∧
      formatter.Prints fs path analyzed
        (formatter.textOf (formatter.reading fs path).files lookup shown analyzed)
        (.ok (formatter.statsOf (formatter.reading fs path).files shown)) after := by
  obtain ⟨shown, lookup, after, hsub, hin, hw⟩ :=
    Writing.exists_writes_all (formatter.reading fs path).files (formatter.start fs {} path) rfl
      (formatter.reading fs path).findings analyzed
  exact ⟨shown, lookup, { after with log := formatter.readingLog fs path ++ after.log }, hsub, hin,
    .of_writes analyzed h hw⟩

/-- A bundle that cannot be read has no report. -/
theorem exists_prints_of_failure {e : BundleError}
    (h : (formatter.reading fs path).failure = some e) :
    ∃ after, formatter.Prints fs path analyzed "" (.error (.invalidBundle path e)) after := by
  rw [reading] at h
  refine ⟨(formatter.reportBundle fs {} path analyzed).2, fun sink _ => ?_, fun sink hfull => ?_⟩
  · rw [Sink.write_empty]
    simp only [reportBundle, h]
  · rw [Sink.write_empty] at hfull
    cases hfull

end Formatter

end Findings
