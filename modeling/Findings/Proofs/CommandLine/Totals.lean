import Findings.CommandLine.Run
import Findings.Proofs.Report.Blocks

/-!
# Reports of several bundles

The reports of bundles are written one after the other, each with the formatter and the files that
those before it leave. The totals are the sums over them, whichever format is asked for.

* `exists_shows`: what is written for one bundle, and what is counted.
* `reportBundles_cases`: what the reports of several bundles leave.
* `runReport_of_ok`: the output, the exit code and the totals of a report that is finished.
-/

namespace Findings.CommandLine

/-- The report of one bundle among several. -/
structure BundleRun where
  formatter : Formatter
  fs : FileSystem
  bundle : String

namespace BundleRun

variable (analyzed : Option String) (run : BundleRun)

/-- What is read from the bundle. -/
def reading : Reading :=
  run.formatter.reading run.fs run.bundle

/-- The report with a sink of its own. -/
def outcome : Except ReportError Stats × Pass :=
  run.formatter.reportBundle run.fs {} run.bundle analyzed

/-- The text of the report. -/
def written : ByteArray :=
  (run.outcome analyzed).2.sink.written

/-- The statistics of the report, or those of no findings if there are none. -/
def stats : Stats :=
  (run.outcome analyzed).1.toOption.getD .empty

/-- The reports of bundles. -/
def all : Formatter → FileSystem → List String → List BundleRun
  | _, _, [] => []
  | formatter, fs, bundle :: bundles =>
    let run : BundleRun := { formatter, fs, bundle }
    run :: all (run.outcome analyzed).2.formatter (run.outcome analyzed).2.fs bundles

/-- The texts of reports, one after the other. -/
def writtenAll : List BundleRun → ByteArray
  | [] => .empty
  | run :: runs => run.written analyzed ++ writtenAll runs

/-- The files after reports that begin with `fs`. -/
def filesAfter : FileSystem → List BundleRun → FileSystem
  | fs, [] => fs
  | _, run :: runs => filesAfter (run.outcome analyzed).2.fs runs

/-- How many bundles could not be read. -/
def failures (runs : List BundleRun) : Nat :=
  runs.countP (·.reading.failure.isSome)

/-- Whether the report of a bundle shows these findings. A bundle that cannot be read adds no text
and no counts; of any other some findings are written and counted, and then the last line. -/
structure Shows (shown : List Finding) : Prop where
  counts : (run.stats analyzed).Counts shown.length
  sorted : (run.stats analyzed).Sorted
  unread : ∀ e, run.reading.failure = some e →
    (run.outcome analyzed).1 = .error (.invalidBundle run.bundle e) ∧
      run.written analyzed = .empty ∧ run.stats analyzed = .empty ∧ shown = []
  read : run.reading.failure = none →
    (run.outcome analyzed).1 = .ok (run.stats analyzed) ∧ shown.Sublist run.reading.findings ∧
      (∀ finding ∈ shown, finding.InTable run.reading.files) ∧
      run.stats analyzed = run.formatter.statsOf run.reading.files shown ∧
      ∃ lookup, run.written analyzed =
        (run.formatter.textOf run.reading.files lookup shown analyzed).toUTF8

theorem failures_cons (runs : List BundleRun) :
    failures (run :: runs) = failures [run] + failures runs := by
  rw [failures, List.countP_cons, failures, failures, List.countP_singleton, Nat.add_comm]

variable {analyzed run}

/-- With a sink of its own, a report is written in full. -/
theorem outcome_of_prints {text : String} {result : Except ReportError Stats} {after : Pass}
    (h : run.formatter.Prints run.fs run.bundle analyzed text result after) :
    (run.outcome analyzed).1 = result ∧ run.written analyzed = text.toUTF8 ∧
      run.formatter.Prints run.fs run.bundle analyzed text (run.outcome analyzed).1
        (run.outcome analyzed).2 := by
  have hfits : (Sink.write {} text).1 = true := Sink.write_fst_of_unlimited rfl text
  have houtcome : run.outcome analyzed =
      (result, { after with sink := (Sink.write {} text).2 }) := h.fits {} hfits
  have hwritten : run.written analyzed = text.toUTF8 := by
    rw [written, houtcome, Sink.write_of_fits hfits]
    exact ByteArray.empty_append
  refine ⟨by rw [houtcome], hwritten, ?_⟩
  rw [houtcome]
  exact ⟨h.fits, h.full⟩

/-- A report writes a text on every sink, and shows some findings. -/
theorem exists_shows (analyzed : Option String) (run : BundleRun) :
    ∃ text shown, run.Shows analyzed shown ∧ run.written analyzed = text.toUTF8 ∧
      run.formatter.Prints run.fs run.bundle analyzed text (run.outcome analyzed).1
        (run.outcome analyzed).2 := by
  cases hf : run.reading.failure with
  | some e =>
    obtain ⟨after, hprints⟩ := Formatter.exists_prints_of_failure analyzed hf
    obtain ⟨hresult, hwritten, houtcome⟩ := outcome_of_prints hprints
    have hstats : run.stats analyzed = .empty := by
      rw [stats, hresult]
      rfl
    refine ⟨"", [], ⟨?_, ?_, fun e' he => ?_, fun hnone => ?_⟩, hwritten, houtcome⟩
    · rw [hstats]
      exact Stats.counts_empty
    · rw [hstats]
      exact Stats.sorted_empty
    · obtain rfl : e = e' := Option.some.inj (hf.symm.trans he)
      exact ⟨hresult, hwritten, hstats, rfl⟩
    · rw [hf] at hnone
      cases hnone
  | none =>
    obtain ⟨shown, lookup, after, hsub, hin, hprints⟩ := Formatter.exists_prints analyzed hf
    obtain ⟨hresult, hwritten, houtcome⟩ := outcome_of_prints hprints
    have hstats : run.stats analyzed = run.formatter.statsOf run.reading.files shown := by
      rw [stats, hresult]
      rfl
    refine ⟨_, shown, ⟨?_, ?_, fun e he => ?_, fun _ => ?_⟩, hwritten, houtcome⟩
    · rw [hstats]
      exact run.formatter.counts_statsOf run.reading.files shown
    · rw [hstats]
      exact Stats.sorted_empty.recordAll _ _ shown
    · rw [hf] at he
      cases he
    · rw [hstats]
      exact ⟨hresult, hsub, hin, rfl, lookup, hwritten⟩

/-- Every report shows some findings. -/
theorem exists_forall₂_shows (analyzed : Option String) (runs : List BundleRun) :
    ∃ shown, List.Forall₂ (Shows analyzed) runs shown := by
  induction runs with
  | nil => exact ⟨[], .nil⟩
  | cons run rest ih =>
    obtain ⟨shown, hrest⟩ := ih
    obtain ⟨_, first, hfirst, -⟩ := exists_shows analyzed run
    exact ⟨first :: shown, .cons hfirst hrest⟩

end BundleRun

namespace ReportFormat

/-- A sink after reports were written as text. As JSON, they are kept back. -/
def sinkAfter (format : ReportFormat) (sink : Sink) (written : ByteArray) : Sink :=
  if format = .json then sink else { sink with written := sink.written ++ written }

theorem sinkAfter_empty (format : ReportFormat) (sink : Sink) :
    format.sinkAfter sink .empty = sink := by
  rw [sinkAfter, ByteArray.append_empty, ite_self]

theorem sinkAfter_append (format : ReportFormat) (sink : Sink) (written rest : ByteArray) :
    format.sinkAfter sink (written ++ rest) =
      format.sinkAfter (format.sinkAfter sink written) rest := by
  unfold sinkAfter
  split
  · rfl
  · rw [ByteArray.append_assoc]

theorem capacity_sinkAfter (format : ReportFormat) (sink : Sink) (written : ByteArray) :
    (format.sinkAfter sink written).capacity = sink.capacity := by
  unfold sinkAfter
  split <;> rfl

end ReportFormat

namespace Session

variable {analyzed : Option String}

/-- What a report leaves that is not cut off. -/
theorem reportBundle_of_fits (session : Session) (format : ReportFormat) (bundle : String)
    {text : String} {shown : List Finding}
    (hshows : BundleRun.Shows analyzed { session with bundle } shown)
    (hprints : session.formatter.Prints session.fs bundle analyzed text
      (BundleRun.outcome analyzed { session with bundle }).1
      (BundleRun.outcome analyzed { session with bundle }).2)
    (hfits : ((if format = .json then {} else session.sink : Sink).write text).1 = true) :
    ∃ log, session.reportBundle format analyzed bundle = (none, {
      formatter := (BundleRun.outcome analyzed { session with bundle }).2.formatter
      fs := (BundleRun.outcome analyzed { session with bundle }).2.fs
      sink := if format = .json then session.sink else (session.sink.write text).2
      totals := session.totals.merge (BundleRun.stats analyzed { session with bundle })
      failed := session.failed + BundleRun.failures [{ session with bundle }]
      log }) := by
  generalize hrun : ({ session with bundle } : BundleRun) = run at hshows hprints ⊢
  have hsink : (if format = .json then session.sink
      else ((if format = .json then {} else session.sink : Sink).write text).2) =
        if format = .json then session.sink else (session.sink.write text).2 := by
    split <;> rfl
  rw [reportBundle, hprints.fits _ hfits, ← hsink]
  cases hf : run.reading.failure with
  | some e =>
    obtain ⟨hresult, -, hstats, -⟩ := hshows.unread e hf
    have hfailures : BundleRun.failures [run] = 1 := by simp [BundleRun.failures, hf]
    rw [hresult, hstats, hfailures, Stats.merge_empty]
    exact ⟨_, rfl⟩
  | none =>
    obtain ⟨hresult, -⟩ := hshows.read hf
    have hfailures : BundleRun.failures [run] = 0 := by simp [BundleRun.failures, hf]
    rw [hresult, hfailures]
    exact ⟨_, rfl⟩

/-- The report of one bundle in a session. As text on a sink with a limit, it may also end the
session. -/
theorem reportBundle_cases (session : Session) (format : ReportFormat) (analyzed : Option String)
    (bundle : String) :
    let run : BundleRun := { session with bundle }
    (∃ log, session.reportBundle format analyzed bundle = (none, {
        formatter := (run.outcome analyzed).2.formatter
        fs := (run.outcome analyzed).2.fs
        sink := format.sinkAfter session.sink (run.written analyzed)
        totals := session.totals.merge (run.stats analyzed)
        failed := session.failed + BundleRun.failures [run]
        log })) ∨
      format = .text ∧ session.sink.capacity ≠ none ∧
        ∃ e, (session.reportBundle format analyzed bundle).1 = some e := by
  intro run
  obtain ⟨text, shown, hshows, hwritten, hprints⟩ := BundleRun.exists_shows analyzed run
  cases format with
  | json =>
    exact .inl (reportBundle_of_fits session .json bundle hshows hprints
      (Sink.write_fst_of_unlimited rfl text))
  | text =>
    cases hfits : (session.sink.write text).1 with
    | true =>
      have hleft := reportBundle_of_fits session .text bundle hshows hprints hfits
      rw [ReportFormat.sinkAfter, hwritten, ← Sink.write_of_fits hfits]
      exact .inl hleft
    | false =>
      obtain ⟨stopped, hstopped⟩ := hprints.full session.sink hfits
      refine .inr ⟨rfl, fun hlimit => ?_, .output Sink.fullMessage, ?_⟩
      · rw [Sink.write_fst_of_unlimited hlimit] at hfits
        cases hfits
      · rw [reportBundle, if_neg (by decide), hstopped]

/-- What the reports of several bundles leave in a session. -/
theorem reportBundles_cases (session : Session) (format : ReportFormat) (analyzed : Option String)
    (bundles : List String) :
    let runs := BundleRun.all analyzed session.formatter session.fs bundles
    (∃ formatter log, session.reportBundles format analyzed bundles = (none, {
        formatter
        fs := BundleRun.filesAfter analyzed session.fs runs
        sink := format.sinkAfter session.sink (BundleRun.writtenAll analyzed runs)
        totals := session.totals.mergeAll (runs.map (·.stats analyzed))
        failed := session.failed + BundleRun.failures runs
        log })) ∨
      format = .text ∧ session.sink.capacity ≠ none ∧
        ∃ e, (session.reportBundles format analyzed bundles).1 = some e := by
  induction bundles generalizing session with
  | nil =>
    refine .inl ⟨session.formatter, session.log, ?_⟩
    rw [BundleRun.all, BundleRun.writtenAll, ReportFormat.sinkAfter_empty]
    rfl
  | cons bundle rest ih =>
    intro runs
    obtain ⟨log, hfirst⟩ | ⟨htext, hlimit, e, hfirst⟩ :=
      reportBundle_cases session format analyzed bundle
    · rw [reportBundles, hfirst]
      dsimp only
      refine (ih _).imp ?_ fun ⟨htext, hlimit, hstopped⟩ => ⟨htext, ?_, hstopped⟩
      · rintro ⟨formatter, log, hrest⟩
        refine ⟨formatter, log, hrest.trans ?_⟩
        rw [Nat.add_assoc, ← BundleRun.failures_cons, ← ReportFormat.sinkAfter_append]
        rfl
      · rwa [ReportFormat.capacity_sinkAfter] at hlimit
    · refine .inr ⟨htext, hlimit, e, ?_⟩
      rw [reportBundles]
      rcases hr : session.reportBundle format analyzed bundle with ⟨error, after⟩
      rw [hr] at hfirst
      obtain rfl : error = some e := hfirst
      rfl

/-- A session ends as its failures say. -/
theorem finish_eq (session : Session) (bundles : Nat) :
    (session.finish bundles).result = .ok (if session.failed = 0 then 0 else 1) ∧
      (session.finish bundles).sink = session.sink ∧ (session.finish bundles).fs = session.fs := by
  unfold finish
  split <;> exact ⟨rfl, rfl, rfl⟩

end Session

/-! ## Whole reports -/

/-- The totals of reports. -/
def BundleRun.totals (analyzed : Option String) (runs : List BundleRun) : Stats :=
  Stats.empty.mergeAll (runs.map (·.stats analyzed))

/-- The exit code of reports: 1 if a bundle could not be read. -/
def BundleRun.exitCode (runs : List BundleRun) : Nat :=
  if runs.any (·.reading.failure.isSome) then 1 else 0

/-- Statistics as they are printed. -/
def totalsText (totals : Stats) : String :=
  totals.toJson.pretty ++ "\n"

theorem BundleRun.exitCode_eq (runs : List BundleRun) :
    exitCode runs = if failures runs = 0 then 0 else 1 := by
  have hfailures : failures runs = 0 ↔ runs.any (·.reading.failure.isSome) = false := by
    rw [failures, List.countP_eq_zero, List.any_eq_false]
  by_cases h : failures runs = 0
  · rw [if_pos h, exitCode, hfailures.1 h]
    rfl
  · rw [if_neg h, exitCode, if_pos (Bool.not_eq_false _ ▸ fun hn => h (hfailures.2 hn))]

section Whole

variable {fs : FileSystem} {sink : Sink} {settings : Settings} {options : ReportOptions}
  {formatter : Formatter} {session : Session} {code : Nat}

/-- A report of bundles as text ends with its session. -/
theorem runReport_text (hf : reportFormatter fs settings options = .ok formatter)
    (hs : Session.reportBundles { formatter, fs, sink } options.format options.analyzedFile
      options.bundles = (none, session)) (hformat : options.format = .text) :
    runReport fs sink settings options = session.finish options.bundles.length := by
  simp only [runReport, hf, hs]
  rw [hformat]

/-- A report of bundles as JSON prints the totals of its session. -/
theorem runReport_json (hf : reportFormatter fs settings options = .ok formatter)
    (hs : Session.reportBundles { formatter, fs, sink } options.format options.analyzedFile
      options.bundles = (none, session)) (hformat : options.format = .json) :
    runReport fs sink settings options =
      if (session.sink.write (totalsText session.totals)).1 then
        Session.finish { session with sink := (session.sink.write (totalsText session.totals)).2 }
          options.bundles.length
      else
        Session.outcome { session with sink := (session.sink.write (totalsText session.totals)).2 }
          (.error (.output Sink.fullMessage)) := by
  simp only [runReport, hf, hs]
  rw [hformat]
  rfl

/-- A session that is ended by an error makes an error of the report. -/
theorem result_of_stopped {e : ReportError}
    (hf : reportFormatter fs settings options = .ok formatter)
    (hs : (Session.reportBundles { formatter, fs, sink } options.format options.analyzedFile
      options.bundles).1 = some e) :
    (runReport fs sink settings options).result = .error (.report e) := by
  simp only [runReport, hf, hs]
  rfl

variable (fs sink options formatter)

/-- The session of a report. As text on a sink with a limit, it may also be ended by an error. -/
theorem session_cases :
    let runs := BundleRun.all options.analyzedFile formatter fs options.bundles
    let (error, session) := Session.reportBundles { formatter, fs, sink } options.format
      options.analyzedFile options.bundles
    error = none ∧ session.fs = BundleRun.filesAfter options.analyzedFile fs runs ∧
        session.sink =
          options.format.sinkAfter sink (BundleRun.writtenAll options.analyzedFile runs) ∧
        session.totals = BundleRun.totals options.analyzedFile runs ∧
        (if session.failed = 0 then 0 else 1) = BundleRun.exitCode runs ∨
      options.format = .text ∧ sink.capacity ≠ none ∧ ∃ e, error = some e := by
  intro runs
  have hcode : (if 0 + BundleRun.failures runs = 0 then 0 else 1) = BundleRun.exitCode runs := by
    rw [Nat.zero_add, BundleRun.exitCode_eq]
  obtain ⟨_, log, hs⟩ | hs := Session.reportBundles_cases { formatter, fs, sink } options.format
    options.analyzedFile options.bundles
  · rw [hs]
    exact .inl ⟨rfl, rfl, rfl, rfl, hcode⟩
  · exact .inr hs

variable {fs sink options formatter}

variable (sink) in
/-- The reports of bundles as JSON are finished if the totals fit. -/
theorem outcome_of_json (hf : reportFormatter fs settings options = .ok formatter)
    (hformat : options.format = .json) :
    let runs := BundleRun.all options.analyzedFile formatter fs options.bundles
    let text := totalsText (BundleRun.totals options.analyzedFile runs)
    ((runReport fs sink settings options).result =
        if (sink.write text).1 then .ok (BundleRun.exitCode runs)
        else .error (.output Sink.fullMessage)) ∧
      (runReport fs sink settings options).sink = (sink.write text).2 ∧
      (runReport fs sink settings options).fs =
        BundleRun.filesAfter options.analyzedFile fs runs := by
  intro runs text
  have hcases := session_cases fs sink options formatter
  rcases hs : Session.reportBundles { formatter, fs, sink } options.format options.analyzedFile
    options.bundles with ⟨error, session⟩
  rw [hs] at hcases
  obtain ⟨rfl, hfs, hsink, htotals, hcode⟩ | ⟨htext, -⟩ := hcases
  · rw [ReportFormat.sinkAfter, if_pos hformat] at hsink
    rw [runReport_json hf hs hformat, hsink, htotals]
    obtain ⟨hresult, hsink', hfs'⟩ :=
      Session.finish_eq { session with sink := (sink.write text).2 } options.bundles.length
    rw [hcode] at hresult
    split
    · exact ⟨hresult, hsink', hfs'.trans hfs⟩
    · exact ⟨rfl, rfl, hfs⟩
  · rw [hformat] at htext
    cases htext

variable (sink) in
/-- The reports of bundles as text are finished, or a sink with a limit ends them. -/
theorem text_cases (hf : reportFormatter fs settings options = .ok formatter)
    (hformat : options.format = .text) :
    let runs := BundleRun.all options.analyzedFile formatter fs options.bundles
    (runReport fs sink settings options).result = .ok (BundleRun.exitCode runs) ∧
        (runReport fs sink settings options).sink.written =
          sink.written ++ BundleRun.writtenAll options.analyzedFile runs ∧
        (runReport fs sink settings options).fs =
          BundleRun.filesAfter options.analyzedFile fs runs ∨
      sink.capacity ≠ none ∧ ∃ e, (runReport fs sink settings options).result = .error e := by
  intro runs
  have hcases := session_cases fs sink options formatter
  rcases hs : Session.reportBundles { formatter, fs, sink } options.format options.analyzedFile
    options.bundles with ⟨error, session⟩
  rw [hs] at hcases
  obtain ⟨rfl, hfs, hsink, -, hcode⟩ | ⟨-, hlimit, e, rfl⟩ := hcases
  · obtain ⟨hresult, hsink', hfs'⟩ := session.finish_eq options.bundles.length
    rw [runReport_text hf hs hformat, hresult, hcode, hsink', hfs', hsink, hfs,
      ReportFormat.sinkAfter, hformat]
    exact .inl ⟨rfl, rfl, rfl⟩
  · exact .inr ⟨hlimit, _, result_of_stopped hf (by rw [hs])⟩

/-- The reports of bundles as text, if they are finished. -/
theorem outcome_of_text (hf : reportFormatter fs settings options = .ok formatter)
    (hformat : options.format = .text)
    (h : (runReport fs sink settings options).result = .ok code) :
    let runs := BundleRun.all options.analyzedFile formatter fs options.bundles
    code = BundleRun.exitCode runs ∧
      (runReport fs sink settings options).sink.written =
        sink.written ++ BundleRun.writtenAll options.analyzedFile runs ∧
      (runReport fs sink settings options).fs =
        BundleRun.filesAfter options.analyzedFile fs runs := by
  intro runs
  obtain ⟨hresult, hafter⟩ | ⟨-, e, hresult⟩ := text_cases sink hf hformat
  · rw [hresult] at h
    exact ⟨(Except.ok.inj h).symm, hafter⟩
  · rw [hresult] at h
    cases h

/-- On a sink without a limit every report is finished. -/
theorem result_of_unlimited (hf : reportFormatter fs settings options = .ok formatter)
    (hlimit : sink.capacity = none) :
    (runReport fs sink settings options).result = .ok (BundleRun.exitCode
      (BundleRun.all options.analyzedFile formatter fs options.bundles)) := by
  cases hformat : options.format with
  | json =>
    obtain ⟨hresult, -⟩ := outcome_of_json sink hf hformat
    rw [hresult, if_pos (Sink.write_fst_of_unlimited hlimit _)]
  | text =>
    obtain ⟨hresult, -⟩ | ⟨hlimited, -⟩ := text_cases sink hf hformat
    · exact hresult
    · exact absurd hlimit hlimited

/-- The totals of reports are the sums of their statistics, and count all findings that are shown.
-/
theorem totals_of_shows {analyzed : Option String} {runs : List BundleRun}
    {shown : List (List Finding)} (h : List.Forall₂ (BundleRun.Shows analyzed) runs shown) :
    (BundleRun.totals analyzed runs).Counts (shown.map List.length).sum ∧
      (BundleRun.totals analyzed runs).SumOf (runs.map (·.stats analyzed)) := by
  have hcounts : List.Forall₂ Stats.Counts (runs.map (·.stats analyzed))
      (shown.map List.length) := by
    rw [List.forall₂_map_left_iff, List.forall₂_map_right_iff]
    exact h.imp fun _ _ hs => hs.counts
  have hall := Stats.counts_empty.mergeAll hcounts
  rw [Nat.zero_add] at hall
  have hsorted : ∀ stats ∈ runs.map (·.stats analyzed), stats.Sorted := by
    rw [List.forall_mem_map]
    intro run _
    obtain ⟨_, _, hs, -⟩ := BundleRun.exists_shows analyzed run
    exact hs.sorted
  exact ⟨hall, Stats.sumOf_mergeAll hsorted⟩

/-- The exit code of a report that is finished, and the files after it. -/
theorem outcome_of_ok (hf : reportFormatter fs settings options = .ok formatter)
    (h : (runReport fs sink settings options).result = .ok code) :
    let runs := BundleRun.all options.analyzedFile formatter fs options.bundles
    code = BundleRun.exitCode runs ∧
      (runReport fs sink settings options).fs =
        BundleRun.filesAfter options.analyzedFile fs runs := by
  intro runs
  cases hformat : options.format with
  | text =>
    obtain ⟨hcode, -, hfs⟩ := outcome_of_text hf hformat h
    exact ⟨hcode, hfs⟩
  | json =>
    obtain ⟨hresult, -, hfs⟩ := outcome_of_json sink hf hformat
    rw [hresult] at h
    split at h
    · exact ⟨(Except.ok.inj h).symm, hfs⟩
    · cases h

/-- A report of bundles that is finished counts for each of them the findings that it shows, and in
all of them together the sums. As text it writes the reports one after the other; as JSON, from the
same files, it prints the totals and changes the same files. Either way the exit code tells whether
a bundle could not be read. -/
theorem runReport_of_ok (h : (runReport fs sink settings options).result = .ok code) :
    ∃ formatter, reportFormatter fs settings options = .ok formatter ∧
      let runs := BundleRun.all options.analyzedFile formatter fs options.bundles
      let totals := BundleRun.totals options.analyzedFile runs
      let text := totalsText totals
      (∃ shown, List.Forall₂ (BundleRun.Shows options.analyzedFile) runs shown ∧
        totals.Counts (shown.map List.length).sum) ∧
      totals.SumOf (runs.map (·.stats options.analyzedFile)) ∧
      code = BundleRun.exitCode runs ∧
      (options.format = .text → (runReport fs sink settings options).sink.written =
        sink.written ++ BundleRun.writtenAll options.analyzedFile runs) ∧
      ∀ printed : Sink, (printed.write text).1 = true →
        let json := runReport fs printed settings { options with format := .json }
        json.result = .ok code ∧ json.sink.written = printed.written ++ text.toUTF8 ∧
          json.fs = (runReport fs sink settings options).fs := by
  cases hf : reportFormatter fs settings options with
  | error e =>
    simp only [runReport, hf] at h
    cases h
  | ok formatter =>
    obtain ⟨hcode, hfs⟩ := outcome_of_ok hf h
    obtain ⟨shown, hshown⟩ := BundleRun.exists_forall₂_shows options.analyzedFile
      (BundleRun.all options.analyzedFile formatter fs options.bundles)
    obtain ⟨hcounts, hsums⟩ := totals_of_shows hshown
    refine ⟨formatter, rfl, ⟨shown, hshown, hcounts⟩, hsums, hcode, fun hformat => ?_,
      fun printed hfits => ?_⟩
    · obtain ⟨-, hwritten, -⟩ := outcome_of_text hf hformat h
      exact hwritten
    · have hjson : reportFormatter fs settings { options with format := .json } =
          .ok formatter := hf
      obtain ⟨hresult, hsink, hfs'⟩ := outcome_of_json printed hjson rfl
      rw [if_pos hfits, ← hcode] at hresult
      rw [Sink.write_of_fits hfits] at hsink
      exact ⟨hresult, by rw [hsink], hfs'.trans hfs.symm⟩

end Whole

/-- A report of a bundle that is missing and of one with two findings. -/
def oneMissing (format : ReportFormat) (sink : Sink) : Outcome :=
  runReport (Formatter.filesWith Formatter.eventElsewhere) sink { directory := "/" }
    { bundles := ["gone.json", "b.json"], keepBundles := true, format }

theorem result_oneMissing : (oneMissing .text {}).result = .ok 1 := by
  have hf : reportFormatter (Formatter.filesWith Formatter.eventElsewhere) { directory := "/" }
      { bundles := ["gone.json", "b.json"], keepBundles := true } = .ok {
        enricher := { mayReplace := false }
        store := some { backing := none, writable := false } } := rfl
  have hcode : BundleRun.exitCode (BundleRun.all none {
        enricher := { mayReplace := false }
        store := some { backing := none, writable := false } }
      (Formatter.filesWith Formatter.eventElsewhere) ["gone.json", "b.json"]) = 1 := rfl
  exact (result_of_unlimited hf rfl).trans (congrArg Except.ok hcode)

/-- The other bundle is reported, in either format. -/
theorem runReport_oneMissing :
    (oneMissing .text {}).result = .ok 1 ∧ (oneMissing .json {}).result = .ok 1 ∧
      (oneMissing .json {}).fs = (oneMissing .text {}).fs ∧
      ∃ runs,
        (oneMissing .text {}).sink.written = .empty ++ BundleRun.writtenAll none runs ∧
        (oneMissing .json {}).sink.written =
          .empty ++ (totalsText (BundleRun.totals none runs)).toUTF8 := by
  obtain ⟨formatter, -, -, -, -, htext, hjson⟩ := runReport_of_ok result_oneMissing
  obtain ⟨hresult, hprinted, hfs⟩ := hjson {} (Sink.write_fst_of_unlimited rfl _)
  have hwritten := htext rfl
  generalize BundleRun.all _ formatter _ _ = runs at hwritten hprinted
  refine ⟨result_oneMissing, hresult, hfs, runs, ?_, ?_⟩
  · rw [oneMissing, hwritten]
  · rw [oneMissing, hprinted]

end Findings.CommandLine
