import Findings.Proofs.Bundle.Rereading
import Findings.Proofs.Report.Blocks
import Findings.Proofs.Report.Plain

/-!
# Reporting a bundle again

A report of a bundle may fill the cache and write hashes into the bundle, and both are there when
the same formatter reports the bundle again. If nothing is added to the store, the two reports are
the same, and the second leaves all files alone.

* `frame_reportBundle`: a report changes the cache, and the files only when the bundle is read.
* `fs_reportBundle_again`: the second report changes no file, whatever became of the first.
* `prints_again`: the second report has the text and the statistics of the first.
* `reportBundle_again`: both together.
-/

namespace Findings

/-- What no report without a store to add to may change while it is written. -/
def Pass.frame (pass : Pass) : Formatter × FileSystem :=
  ({ pass.formatter with sources := .empty }, pass.fs)

namespace Writing

variable (files : FileTable)

theorem unwritten_frame : Unwritten Pass.frame where
  sink _ _ := rfl
  sources _ _ := rfl

theorem frame_finding (pass : Pass) (h : pass.formatter.ReadOnly) (finding : Finding) :
    ((Writing.finding files finding).run pass).2.frame = pass.frame := by
  rw [view_finding unwritten_frame (fun _ _ => rfl)]
  obtain ⟨earlier, -, -, ⟨log, hj⟩ | ⟨found, -, hj⟩⟩ := judge_eq files pass finding
  · rw [hj]
    rfl
  · rw [hj, promote_of_readOnly (pass.withSources (pass.formatter.sources.after pass.fs earlier)) h]
    rfl

theorem frame_findings (pass : Pass) (h : pass.formatter.ReadOnly) (findings : List Finding) :
    ((findings.forM (Writing.finding files)).run pass).2.frame = pass.frame := by
  induction findings generalizing pass with
  | nil => rfl
  | cons finding rest ih =>
    have hfinding := frame_finding files pass h finding
    rw [run_forM_cons]
    revert hfinding
    rcases (Writing.finding files finding).run pass with ⟨e | u, after⟩
    · exact id
    · intro hfinding
      have hstore : after.formatter.store = pass.formatter.store :=
        congrArg (fun frame => frame.1.store) hfinding
      have hreadOnly : after.formatter.ReadOnly := by rwa [Formatter.ReadOnly, hstore]
      exact (ih after hreadOnly).trans hfinding

end Writing

namespace Formatter

section

variable (formatter : Formatter) (fs : FileSystem) (path : String)

/-- Only reading the bundle may change a file, and else only the cache changes. -/
theorem frame_reportBundle (hstore : formatter.ReadOnly) (sink : Sink)
    (analyzed : Option String) :
    (formatter.reportBundle fs sink path analyzed).2.frame =
      (formatter.start fs sink path).frame := by
  cases h : (formatter.reading fs path).failure with
  | none =>
    rw [reportBundle_eq formatter fs path analyzed sink h]
    exact (Writing.view_all Writing.unwritten_frame _ _ analyzed _).trans
      (Writing.frame_findings _ (formatter.start fs sink path) hstore _)
  | some e =>
    rw [reading] at h
    simp only [reportBundle, h]
    rfl

end

variable {formatter : Formatter} {fs : FileSystem} {path : String}

/-- After a report, whether or not all of it was written, another one changes no file. -/
theorem fs_reportBundle_again (hcompletes : fs.Completes path) (hstore : formatter.ReadOnly)
    (hhash : ∀ path source checker, formatter.enricher.hasher path source checker ≠ "")
    (h : (formatter.reading fs path).failure = none) (sink sink₂ : Sink)
    (analyzed : Option String) :
    let once := (formatter.reportBundle fs sink path analyzed).2
    (once.formatter.reportBundle once.fs sink₂ path analyzed).2.fs = once.fs := by
  intro once
  have hframe := frame_reportBundle formatter fs path hstore sink analyzed
  have hformatter : once.formatter = { formatter with sources := once.formatter.sources } := by
    have hf := congrArg (fun frame => { frame.1 with sources := once.formatter.sources }) hframe
    exact hf
  have hfs : once.fs = (formatter.enricher.readPath fs path formatter.sources).2.2.2 :=
    congrArg Prod.snd hframe
  have hstore₂ : once.formatter.ReadOnly := by rwa [hformatter]
  have hagain := congrArg Prod.snd
    (frame_reportBundle once.formatter once.fs path hstore₂ sink₂ analyzed)
  refine hagain.trans ?_
  rw [hformatter, hfs]
  exact (formatter.enricher.readPath_again hcompletes hhash h once.formatter.sources).unchanged

/-! ## The same text -/

/-- Whether a report of a bundle is a text, with some statistics: as much of the text is written as
the sink takes, and the report is finished if that is all of it. -/
def ReportsBundle (formatter : Formatter) (fs : FileSystem) (path : String)
    (analyzed : Option String) (text : String) (stats : Stats) : Prop :=
  ∀ sink,
    (formatter.reportBundle fs sink path analyzed).1 =
        (if (sink.write text).1 then .ok stats else .error (.output Sink.fullMessage)) ∧
      (formatter.reportBundle fs sink path analyzed).2.sink = (sink.write text).2

variable {analyzed : Option String}

theorem Prints.reportsBundle {text : String} {stats : Stats} {after : Pass}
    (h : formatter.Prints fs path analyzed text (.ok stats) after) :
    formatter.ReportsBundle fs path analyzed text stats := by
  intro sink
  cases hs : (sink.write text).1 with
  | true =>
    rw [h.fits sink hs]
    exact ⟨rfl, rfl⟩
  | false =>
    obtain ⟨stopped, hstopped⟩ := h.full sink hs
    rw [hstopped]
    exact ⟨rfl, rfl⟩

/-- The report of a bundle shows the findings that survive, given the sources that are looked up for
the bundle and for the report. -/
theorem exists_prints_shown (hstore : formatter.ReadOnly)
    (h : (formatter.reading fs path).failure = none) (analyzed : Option String) :
    ∃ earlier, ∀ lookup,
      let files := (formatter.reading fs path).files
      let shown := (formatter.reading fs path).findings.filter (formatter.survives files lookup)
      let sources := (formatter.start fs {} path).formatter.sources.after
        (formatter.start fs {} path).fs earlier
      sources.Agrees (formatter.enricher.sourcePaths files) lookup →
        ∃ after, formatter.Prints fs path analyzed (formatter.textOf files lookup shown analyzed)
            (.ok (formatter.statsOf files shown)) after ∧
          after.formatter = { formatter with sources } ∧
          after.fs = (formatter.start fs {} path).fs := by
  obtain ⟨earlier, -, log, hw⟩ := Writing.writes_all (formatter.reading fs path).files
    (formatter.start fs {} path) hstore rfl (formatter.reading fs path).findings analyzed
  exact ⟨earlier, fun lookup ha => ⟨_, .of_writes analyzed h (hw lookup ha), rfl, rfl⟩⟩

/-- What a bundle has for its report, it has for the next one. -/
theorem prints_again (hcompletes : fs.Completes path) (hstore : formatter.ReadOnly)
    (hhash : ∀ path source checker, formatter.enricher.hasher path source checker ≠ "")
    (h : (formatter.reading fs path).failure = none) (analyzed : Option String) :
    ∃ text stats once again, formatter.Prints fs path analyzed text (.ok stats) once ∧
      once.formatter.Prints once.fs path analyzed text (.ok stats) again := by
  obtain ⟨earlier, hfirst⟩ := exists_prints_shown hstore h analyzed
  let start := formatter.start fs {} path
  let second : Formatter :=
    { formatter with sources := start.formatter.sources.after start.fs earlier }
  have hreads := formatter.enricher.readPath_again hcompletes hhash h second.sources
  have hfailure : (second.reading start.fs path).failure = none := hreads.failure
  have hfiles : (second.reading start.fs path).files = (formatter.reading fs path).files :=
    hreads.files
  have hstore₂ : second.ReadOnly := hstore
  obtain ⟨later, hsecond⟩ := exists_prints_shown hstore₂ hfailure analyzed
  -- Whatever is in the cache in the end is what it was in both reports.
  let cache := (second.start start.fs {} path).formatter.sources
  let lookup := (cache.after (second.start start.fs {} path).fs later).known
  let paths := formatter.enricher.sourcePaths (formatter.reading fs path).files
  have hcache : cache.Agrees paths lookup := (SourceCache.agrees_known _ paths).of_after
  have hbetween : second.sources.Agrees paths lookup := by
    obtain ⟨read, -, hread⟩ := hreads.sources
    rw [show cache = _ from hread] at hcache
    exact hcache.of_after
  have hsame : (second.reading start.fs path).findings.map Finding.plain =
      (formatter.reading fs path).findings.map Finding.plain :=
    hreads.findings lookup hbetween.of_after hcache
  obtain ⟨once, honce, hformatter, hfs⟩ := hfirst lookup hbetween
  obtain ⟨again, hprints, -⟩ := hsecond lookup (SourceCache.agrees_known _ _)
  rw [hfiles, second.textOf_congr _ _ hsame analyzed, second.statsOf_congr _ _ hsame] at hprints
  refine ⟨_, _, once, again, honce, ?_⟩
  rw [hformatter, hfs]
  exact hprints

/-- A report that was written in full is repeated by the same formatter with the same text and the
same statistics, if writes of the bundle do not fail. Whether or not it was, the second report
changes no file. -/
theorem reportBundle_again (hcompletes : fs.Completes path) (hstore : formatter.ReadOnly)
    (hhash : ∀ path source checker, formatter.enricher.hasher path source checker ≠ "")
    (h : (formatter.reading fs path).failure = none) (analyzed : Option String) :
    ∃ text stats, formatter.ReportsBundle fs path analyzed text stats ∧ ∀ sink,
      let once := (formatter.reportBundle fs sink path analyzed).2
      ((sink.write text).1 = true →
          once.formatter.ReportsBundle once.fs path analyzed text stats) ∧
        ∀ sink₂, (once.formatter.reportBundle once.fs sink₂ path analyzed).2.fs = once.fs := by
  obtain ⟨text, stats, once, again, honce, hagain⟩ :=
    prints_again hcompletes hstore hhash h analyzed
  refine ⟨text, stats, honce.reportsBundle, fun sink => ⟨fun hfits => ?_, fun sink₂ => ?_⟩⟩
  · rw [honce.fits sink hfits]
    exact hagain.reportsBundle
  · exact fs_reportBundle_again hcompletes hstore hhash h sink sink₂ analyzed

/-- The only finding has no hash, so one is derived and written. -/
theorem reading_weightedFiles (h : formatter.enricher = {}) :
    (formatter.reading Enricher.weightedFiles "bundle.json").failure = none ∧
      (formatter.reading Enricher.weightedFiles "bundle.json").replaced = true := by
  rw [reading, h]
  generalize formatter.sources = sources
  have hp := Json.parse_pretty Enricher.within_weighted
  have hc : Enricher.weighted.collapse = Enricher.weighted := rfl
  have hread :=
    Enricher.readDocument_of_parse {} Enricher.weightedFiles "bundle.json" sources hp hc
  have hd : Entries.get? "diagnostics" [("files", Json.array [.string "a.c"]),
      ("diagnostics", Json.array [Enricher.weightedEntry])] =
        some (.array [Enricher.weightedEntry]) := rfl
  obtain ⟨hm, -⟩ :=
    Enricher.readMembers_of_array {} Enricher.weightedFiles "bundle.json" sources rfl rfl hd
  have hdirty : (Enricher.readMembers {} Enricher.weightedFiles [("files", .array [.string "a.c"]),
      ("diagnostics", .array [Enricher.weightedEntry])] "bundle.json" sources).reading.isDirty =
        true := rfl
  rw [← hread] at hm hdirty
  have hreplaced := Enricher.replaced_readPath_of_accepts {} Enricher.weightedFiles sources
    Enricher.readText_weightedFiles Enricher.accepts_weightedFiles
  rw [hdirty] at hreplaced
  obtain ⟨replaced, hr⟩ := Enricher.readPath_of_readText {} Enricher.weightedFiles sources
    Enricher.readText_weightedFiles
  refine ⟨?_, hreplaced⟩
  rw [hr, hm]

/-- The first report writes a hash into the bundle, next to a number that is not whole. -/
theorem reportBundle_again_weighted :
    let formatter : Formatter := {}
    let fs := Enricher.weightedFiles
    fs.Completes "bundle.json" ∧ formatter.ReadOnly ∧
      (∀ path source checker, formatter.enricher.hasher path source checker ≠ "") ∧
      (formatter.reading fs "bundle.json").failure = none ∧
      (formatter.reading fs "bundle.json").replaced = true ∧
      ∃ text stats, formatter.ReportsBundle fs "bundle.json" none text stats ∧ ∀ sink,
        let once := (formatter.reportBundle fs sink "bundle.json" none).2
        ((sink.write text).1 = true →
            once.formatter.ReportsBundle once.fs "bundle.json" none text stats) ∧
          ∀ sink₂,
            (once.formatter.reportBundle once.fs sink₂ "bundle.json" none).2.fs = once.fs := by
  intro formatter fs
  have hstore : formatter.ReadOnly := nofun
  have henricher : formatter.enricher = {} := rfl
  obtain ⟨hfailure, hreplaced⟩ : (formatter.reading fs "bundle.json").failure = none ∧
      (formatter.reading fs "bundle.json").replaced = true := reading_weightedFiles henricher
  have hcompletes : fs.Completes "bundle.json" := Enricher.accepts_weightedFiles.completes
  exact ⟨hcompletes, hstore, Identity.pathShape_ne_empty, hfailure, hreplaced,
    reportBundle_again hcompletes hstore Identity.pathShape_ne_empty hfailure none⟩

end Formatter

end Findings
