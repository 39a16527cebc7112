import Findings.Proofs.Report.Counting
import Findings.Proofs.Report.Rendering

/-!
# Findings are reported by themselves

Where nothing is added to the store, and the sources give the same whenever they are looked up, a
report filters its findings and maps each that is left to a text. Neither depends on the other
findings or on their order.

* `writes_findings`: the findings of a report, one after the other.
* `reports_filter_map`: a report is the texts of the findings that are shown, and the last line. The
  statistics count these findings.
-/

namespace Findings

namespace Formatter

variable (formatter : Formatter) (files : FileTable) (lookup : String → Option SourceFile)

/-- The statistics of findings that are shown. -/
def statsOf (shown : List Finding) : Stats :=
  Stats.empty.recordAll formatter.severityOf (Finding.displayFile files) shown

/-- The text of a report that shows some findings. -/
def textOf (shown : List Finding) (analyzed : Option String) : String :=
  String.join (shown.map (formatter.blockText files lookup)) ++
    Layout.summary (.ofNat shown.length) analyzed

/-- The number in the last line is that of the findings. -/
theorem counts_statsOf (shown : List Finding) :
    (formatter.statsOf files shown).Counts shown.length := by
  have hcounts := Stats.counts_empty.recordAll formatter.severityOf (Finding.displayFile files)
    shown
  rwa [Nat.zero_add] at hcounts

end Formatter

namespace Writing

variable (files : FileTable)

/-- Where nothing is added to the store, the findings that are shown are written one after the
other. -/
theorem writes_findings (pass : Pass) (h : pass.formatter.ReadOnly) (findings : List Finding) :
    ∃ earlier ⊆ pass.formatter.enricher.sourcePaths files, ∃ log, ∀ lookup,
      (pass.formatter.sources.after pass.fs earlier).Agrees
          (pass.formatter.enricher.sourcePaths files) lookup →
        Writes (forM findings (Writing.finding files)) pass
          (String.join ((findings.filter (pass.formatter.survives files lookup)).map
            (pass.formatter.blockText files lookup))) ()
          { pass.withSources (pass.formatter.sources.after pass.fs earlier) with
            stats := pass.stats.recordAll pass.formatter.severityOf (Finding.displayFile files)
              (findings.filter (pass.formatter.survives files lookup))
            log } := by
  induction findings generalizing pass with
  | nil => exact ⟨[], List.nil_subset _, pass.log, fun lookup _ => .pure () pass⟩
  | cons finding rest ih =>
    obtain ⟨earlier, he, hcases⟩ := writes_finding files pass finding
    obtain ⟨-, log, hshown⟩ | ⟨-, after, hhidden, hafter⟩ := hcases
    · obtain ⟨later, hl, log', hrest⟩ := ih
        { pass.withSources (pass.formatter.sources.after pass.fs earlier) with
          stats := pass.stats.record (pass.formatter.severityOf finding) (finding.displayFile files)
          log } h
      refine ⟨earlier ++ later, List.append_subset.2 ⟨he, hl⟩, log', fun lookup ha => ?_⟩
      rw [SourceCache.after_append] at ha ⊢
      obtain ⟨hs, hw⟩ := hshown lookup ha.of_after
      rw [List.filter_cons_of_pos hs, List.map_cons, String.join_cons, Stats.recordAll_cons,
        List.forM_cons]
      exact hw.bind (hrest lookup ha)
    · -- A marker changes nothing either, because the store is left alone.
      obtain ⟨log, rfl⟩ : ∃ log, after =
          { pass.withSources (pass.formatter.sources.after pass.fs earlier) with log } := by
        obtain hlog | ⟨found, hfound⟩ := hafter
        · exact hlog
        · refine ⟨pass.log, hfound.trans ?_⟩
          exact promote_of_readOnly
            (pass.withSources (pass.formatter.sources.after pass.fs earlier)) h found
      obtain ⟨later, hl, log', hrest⟩ := ih
        { pass.withSources (pass.formatter.sources.after pass.fs earlier) with log } h
      refine ⟨earlier ++ later, List.append_subset.2 ⟨he, hl⟩, log', fun lookup ha => ?_⟩
      rw [SourceCache.after_append] at ha ⊢
      obtain ⟨hs, hw⟩ := hhidden lookup ha.of_after
      rw [List.filter_cons_of_neg (by rw [hs]; exact Bool.false_ne_true), List.forM_cons,
        ← String.empty_append (s := String.join _)]
      exact hw.bind (hrest lookup ha)

variable {files} in
/-- After the findings comes the last line. -/
theorem Writes.all {findings : List Finding} {pass after : Pass} {text : String}
    (h : Writes (forM findings (Writing.finding files)) pass text () after)
    (analyzed : Option String) :
    Writes (all files findings analyzed) pass
      (text ++ Layout.summary after.stats.reportCount analyzed) after.stats after := by
  have hend : Writes (do
      let stats := (← get).stats
      emit (Layout.summary stats.reportCount analyzed)
      Pure.pure stats) after (Layout.summary after.stats.reportCount analyzed) after.stats
        after := by
    refine .get_bind (fun _ => rfl) ?_
    rw [← String.append_empty (s := Layout.summary _ _)]
    exact (writes_emit _ after).bind (.pure after.stats after)
  exact Writes.bind h hend

/-- The last line tells how many findings were counted. -/
theorem writes_all (pass : Pass) (h : pass.formatter.ReadOnly) (hstats : pass.stats = .empty)
    (findings : List Finding) (analyzed : Option String) :
    ∃ earlier ⊆ pass.formatter.enricher.sourcePaths files, ∃ log, ∀ lookup,
      (pass.formatter.sources.after pass.fs earlier).Agrees
          (pass.formatter.enricher.sourcePaths files) lookup →
        Writes (all files findings analyzed) pass
          (pass.formatter.textOf files lookup
            (findings.filter (pass.formatter.survives files lookup)) analyzed)
          (pass.formatter.statsOf files (findings.filter (pass.formatter.survives files lookup)))
          { pass.withSources (pass.formatter.sources.after pass.fs earlier) with
            stats := pass.formatter.statsOf files
              (findings.filter (pass.formatter.survives files lookup))
            log } := by
  obtain ⟨earlier, he, log, hw⟩ := writes_findings files pass h findings
  refine ⟨earlier, he, log, fun lookup ha => ?_⟩
  have hfindings := hw lookup ha
  rw [hstats] at hfindings
  have hall := hfindings.all analyzed
  have hcounts := pass.formatter.counts_statsOf files
    (findings.filter (pass.formatter.survives files lookup))
  rw [Formatter.textOf, ← hcounts.reportCount]
  exact hall

end Writing

namespace Formatter

variable {formatter : Formatter} {fs : FileSystem} {files : FileTable}
  {lookup : String → Option SourceFile}

/-- Whether a report of findings is a text, with some statistics: as much of the text is written as
the sink takes, and the report is finished if that is all of it. -/
def Reports (formatter : Formatter) (fs : FileSystem) (files : FileTable)
    (findings : List Finding) (analyzed : Option String) (text : String) (stats : Stats) : Prop :=
  ∀ sink,
    (formatter.writeReport fs sink files findings analyzed).1 =
        (if (sink.write text).1 then .ok stats else .error (.output Sink.fullMessage)) ∧
      (formatter.writeReport fs sink files findings analyzed).2.sink = (sink.write text).2

/-- A report is made of the findings that are shown. -/
theorem reports_shown (hstore : formatter.ReadOnly)
    (hlookup : formatter.sources.LooksUp fs (formatter.enricher.sourcePaths files) lookup)
    (findings : List Finding) (analyzed : Option String) :
    formatter.Reports fs files findings analyzed
      (formatter.textOf files lookup (findings.filter (formatter.survives files lookup)) analyzed)
      (formatter.statsOf files (findings.filter (formatter.survives files lookup))) := by
  intro sink
  obtain ⟨earlier, he, log, hw⟩ :=
    Writing.writes_all files { formatter, fs, sink } hstore rfl findings analyzed
  exact (hw lookup (hlookup.agrees he)).outcome sink

/-- The statistics count the findings that are shown, each under its severity and under its file. -/
theorem count_statsOf (formatter : Formatter) (files : FileTable) (shown : List Finding)
    (key : String) :
    (formatter.statsOf files shown).severity.count key =
        .ofNat (shown.countP (formatter.severityOf · = key)) ∧
      (formatter.statsOf files shown).files.count key =
        .ofNat (shown.countP (·.displayFile files = key)) := by
  have hs := Tally.count_foldl_add formatter.severityOf Stats.sorted_empty.severity
    shown key
  have hf := Tally.count_foldl_add (Finding.displayFile files) Stats.sorted_empty.files
    shown key
  rw [statsOf, Stats.severity_recordAll, Stats.files_recordAll, hs, hf]
  exact ⟨UInt64.zero_add _, UInt64.zero_add _⟩

/-- A report filters the findings and maps each that is left to a text, by itself. -/
theorem reports_filter_map (hstore : formatter.ReadOnly)
    (hlookup : formatter.sources.LooksUp fs (formatter.enricher.sourcePaths files) lookup)
    (findings : List Finding) (analyzed : Option String) :
    let survives := formatter.survives files lookup
    let block := formatter.blockText files lookup
    let shown := findings.filter survives
    let summary := Layout.summary (.ofNat shown.length) analyzed
    let stats := formatter.statsOf files shown
    formatter.Reports fs files findings analyzed (String.join (shown.map block) ++ summary) stats ∧
      (stats.reportCount = .ofNat shown.length ∧ ∀ key,
        stats.severity.count key = .ofNat (shown.countP (formatter.severityOf · = key)) ∧
          stats.files.count key = .ofNat (shown.countP (·.displayFile files = key))) ∧
      (∀ others, findings.Perm others →
        ((others.filter survives).map block).Perm (shown.map block) ∧
          formatter.Reports fs files others analyzed
            (String.join ((others.filter survives).map block) ++ summary) stats) ∧
      ∀ keep : Finding → Bool, (∀ finding ∈ findings, survives finding = true → keep finding) →
        formatter.Reports fs files (findings.filter keep) analyzed
          (String.join (shown.map block) ++ summary) stats := by
  intro survives block shown summary stats
  have hreports (findings : List Finding) := reports_shown hstore hlookup findings analyzed
  refine ⟨hreports findings, ⟨(formatter.counts_statsOf files shown).reportCount,
    count_statsOf formatter files shown⟩, fun others hp => ?_, fun keep hkeep => ?_⟩
  · have hshown := hp.filter survives
    have hstats : stats = formatter.statsOf files (others.filter survives) :=
      Stats.recordAll_perm hshown Stats.sorted_empty
    have hothers := hreports others
    rw [← hstats, textOf, ← hshown.length_eq] at hothers
    exact ⟨hshown.symm.map block, hothers⟩
  · have hshown : (findings.filter keep).filter survives = shown := by
      rw [List.filter_filter]
      refine List.filter_congr fun finding hf => ?_
      cases hs : survives finding with
      | true => simpa using hkeep finding hf hs
      | false => rfl
    have hkept := hreports (findings.filter keep)
    rwa [hshown] at hkept

/-- A directory with a source that has a marker on its second line. -/
def markedFiles : FileSystem :=
  (FileSystem.empty []).put ["b.c"] (.file "int b;\nint c; // quell_suppress [all]\n".toUTF8)

/-- A finding on a line of the only file. -/
def findingOn (hash : String) (line : UInt32) : Finding :=
  { identityHash := hash, checkerName := "c", location := { line, col := 5, file := 0 } }

theorem looksUp_markedFiles :
    SourceCache.empty.LooksUp markedFiles (Enricher.sourcePaths {} ⟨["b.c"]⟩)
      fun path => (SourceCache.empty.file markedFiles path).1 := by
  refine SourceCache.looksUp_iff.2 fun path hp other ho _ => ?_
  have hp : path ∈ ["b.c"] := hp
  have ho : other ∈ ["b.c"] := ho
  rw [List.mem_singleton.1 hp, List.mem_singleton.1 ho]

/-- The second finding is on the line of the marker. -/
theorem reports_markedFiles :
    let formatter : Formatter := {}
    let findings := [findingOn "h" 1, findingOn "i" 2]
    formatter.ReadOnly ∧
      formatter.sources.LooksUp markedFiles (formatter.enricher.sourcePaths ⟨["b.c"]⟩)
        (fun path => (SourceCache.empty.file markedFiles path).1) ∧
      formatter.Reports markedFiles ⟨["b.c"]⟩ findings none
        ("[UNSPECIFIED] b.c:1:5:  [c]\nint b;\n    ^\n\n" ++
          "Found 1 defect(s) while analyzing\n\n")
        { severity := [("UNSPECIFIED", 1)], files := [("b.c", 1)], reportCount := 1 } := by
  intro formatter findings
  have hstore : formatter.ReadOnly := nofun
  obtain ⟨hreports, -⟩ := reports_filter_map hstore looksUp_markedFiles findings none
  have htext : formatter.textOf ⟨["b.c"]⟩ (fun path => (SourceCache.empty.file markedFiles path).1)
      (findings.filter (formatter.survives ⟨["b.c"]⟩
        fun path => (SourceCache.empty.file markedFiles path).1)) none =
      "[UNSPECIFIED] b.c:1:5:  [c]\nint b;\n    ^\n\n" ++
        "Found 1 defect(s) while analyzing\n\n" := by decide +kernel
  have hstats : formatter.statsOf ⟨["b.c"]⟩ (findings.filter (formatter.survives ⟨["b.c"]⟩
      fun path => (SourceCache.empty.file markedFiles path).1)) =
      { severity := [("UNSPECIFIED", 1)], files := [("b.c", 1)], reportCount := 1 } := by
    decide +kernel
  rw [← htext, ← hstats]
  exact ⟨hstore, looksUp_markedFiles, hreports⟩

end Formatter

end Findings
