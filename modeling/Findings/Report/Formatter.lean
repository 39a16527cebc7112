import Findings.Bundle.Enrichment
import Findings.Bundle.Filter
import Findings.Report.Layout
import Findings.Report.Severity
import Findings.Report.Sink
import Findings.Report.Stats
import Findings.Suppression.Marker
import Findings.Suppression.Store

/-!
# Reports

A report lists findings as text and counts them. A finding goes through the skip policy, the
suppression store and the markers in its source, in this order; only one that passes all three is
written and counted. A marker that applies is also recorded in the store.

- `judge`: what becomes of a finding, before anything is written.
- `writeReport`: a whole report, with its last line.
-/

namespace Findings

/-- Why a report was not finished. -/
inductive ReportError where
  | invalidBundle (path : String) (error : BundleError)
  | output (reason : String)
  deriving DecidableEq, Repr

namespace ReportError

def message : ReportError → String
  | invalidBundle path e => s!"the generated bundle {path} is not valid: {e.message}"
  | output reason => s!"failed to write report output: {reason}"

end ReportError

/-- The settings of reports, with the state that lasts from one report to the next: the suppression
store and the sources read so far. -/
structure Formatter where
  severities : SeverityMap := {}
  policy : Option SkipPolicy := none
  store : Option SuppressionStore := none
  /-- Whether the event steps are listed under each finding. -/
  printSteps : Bool := false
  enricher : Enricher := {}
  sources : SourceCache := {}

/-- The state while a report is written. -/
structure Pass where
  formatter : Formatter
  fs : FileSystem
  sink : Sink
  stats : Stats := {}
  log : Log := []

/-! ## Where a finding is shown -/

namespace Finding

/-- The file table entry that a finding is counted and suppressed under: that of its last event, of
its last located step, or of its own location. -/
def displayFile? (finding : Finding) (files : FileTable) : Option String :=
  let location := (finding.lastEvent?.bind Step.location).getD finding.location
  files.get? location.file

/-- The location and message that a finding is shown with: those of the last step, or of the last
event if the last step has no location, or else the finding's own. -/
def anchor (finding : Finding) : Location × String :=
  let description := finding.description.getD ""
  match finding.lastStep?.or finding.lastEvent? with
  | some step => (step.location.getD finding.location, step.message.getD description)
  | none => (finding.location, description)

/-- The event steps with a location, and their messages. -/
def locatedEvents (finding : Finding) : List (Location × String) :=
  finding.events.filterMap fun step =>
    step.location.map fun location => (location, step.message.getD "")

end Finding

/-! ## What becomes of a finding -/

inductive Verdict where
  /-- Its file is not in the table. -/
  | outsideTable
  /-- The policy excludes its file. -/
  | excluded
  /-- The store covers it. -/
  | suppressed
  /-- The file it would be shown with is not in the table. -/
  | withoutAnchor
  /-- A marker in its source applies to it. -/
  | marked
  /-- It is shown, with the entry of its anchor, and counted under another. -/
  | shown (entry displayFile : String)
  deriving DecidableEq, Repr

namespace Pass

/-- The pass with other sources in its formatter. -/
def withSources (pass : Pass) (sources : SourceCache) : Pass :=
  { pass with formatter := { pass.formatter with sources } }

def report (pass : Pass) (entry : LogEntry) : Pass :=
  { pass with log := pass.log ++ [entry] }

/-- Records a suppression from a source comment in the store, if there is one. -/
def promote (pass : Pass) (found : InlineSuppression) : Pass :=
  match pass.formatter.store with
  | none => pass
  | some store =>
    match store.add pass.fs found.hash found.fileName found.comment with
    | (result, store, fs) =>
      let pass := { pass with fs, formatter := { pass.formatter with store := some store } }
      match result with
      | .ok () => pass
      | .error e =>
        pass.report (.error
          s!"failed to store inline suppression of {found.hash}: {e.message}")

/-- Decides what becomes of a finding. -/
def judge (pass : Pass) (files : FileTable) (finding : Finding) : Verdict × Pass :=
  match finding.displayFile? files with
  | none =>
    (.outsideTable, pass.report (.warn
      s!"report {finding.identityHash} points outside the file table, skipping"))
  | some displayFile =>
    if pass.formatter.policy.any (· displayFile) then (.excluded, pass)
    else if pass.formatter.store.any (·.isSuppressed finding.identityHash displayFile) then
      (.suppressed, pass)
    else
      let (location, _) := finding.anchor
      match files.get? location.file with
      | none => (.withoutAnchor, pass)
      | some entry =>
        let path := pass.formatter.enricher.resolve entry
        let (found, sources) := inlineSuppression pass.formatter.sources pass.fs path
          location.line.toNat finding.identityHash finding.checkerName
        let pass := pass.withSources sources
        match found with
        | some found => (.marked, pass.promote found)
        | none => (.shown entry displayFile, pass)

end Pass

/-! ## Writing -/

/-- Writing that changes the state of a pass, and ends when the sink is full. -/
abbrev Writing := ExceptT ReportError (StateM Pass)

namespace Writing

def emit (text : String) : Writing Unit := do
  let pass ← get
  let (complete, sink) := pass.sink.write text
  set { pass with sink }
  if complete then pure () else throw (.output Sink.fullMessage)

/-- Writes the source line of a location and a caret, if the line can be read. -/
def context (entry : String) (location : Location) : Writing Unit := do
  let pass ← get
  let path := pass.formatter.enricher.resolve entry
  let (line, sources) := pass.formatter.sources.line pass.fs path location.line.toNat
  set (pass.withSources sources)
  match line with
  | some line => emit (Layout.caretBlock line location.col.toNat ++ "\n")
  | none => pure ()

/-- Writes numbered steps. -/
def steps (files : FileTable) (width : Nat) : (number : Nat) → List (Location × String) →
    Writing Unit
  | _, [] => pure ()
  | number, (location, message) :: rest => do
    match files.get? location.file with
    | none => pure ()
    | some entry =>
      emit (Layout.stepLine width number entry location message ++ "\n")
      context entry location
    steps files width (number + 1) rest

/-- Writes the steps of a finding. -/
def stepList (files : FileTable) (finding : Finding) : Writing Unit := do
  emit s!"  Report hash: {finding.identityHash}\n"
  emit "  Steps:\n"
  let events := finding.locatedEvents
  steps files (toString events.length).length 1 events

/-- Writes a finding that is shown. -/
def block (files : FileTable) (finding : Finding) (severity entry : String) : Writing Unit := do
  let (location, message) := finding.anchor
  emit (Layout.header severity finding.checkerName entry location message ++ "\n")
  context entry location
  if (← get).formatter.printSteps then stepList files finding
  emit "\n"

/-- Judges a finding, and counts and writes it if it is shown. -/
def finding (files : FileTable) (finding : Finding) : Writing Unit := do
  let (verdict, pass) := (← get).judge files finding
  match verdict with
  | .shown entry displayFile =>
    let severity := pass.formatter.severities.severityOf finding.checkerName
    set { pass with stats := pass.stats.record severity displayFile }
    block files finding severity entry
  | _ => set pass

/-- Writes the findings and the last line. -/
def all (files : FileTable) (findings : List Finding) (analyzed : Option String) :
    Writing Stats := do
  findings.forM (finding files)
  let stats := (← get).stats
  emit (Layout.summary stats.reportCount analyzed)
  pure stats

end Writing

namespace Formatter

/-- Writes a report of findings, and returns its statistics. -/
def writeReport (formatter : Formatter) (fs : FileSystem) (sink : Sink) (files : FileTable)
    (findings : List Finding) (analyzed : Option String) : Except ReportError Stats × Pass :=
  (Writing.all files findings analyzed).run { formatter, fs, sink }

/-- Reads the bundle at a path and writes a report of its findings. A bundle that cannot be read
leaves the sink as it is. -/
def reportBundle (formatter : Formatter) (fs : FileSystem) (sink : Sink) (path : String)
    (analyzed : Option String) : Except ReportError Stats × Pass :=
  let (reading, log, sources, fs) := formatter.enricher.readPath fs path formatter.sources
  let formatter := { formatter with sources }
  match reading.failure with
  | some e =>
    let log := log ++ [.error s!"the generated bundle {path} is not valid"]
    (.error (.invalidBundle path e), { formatter, fs, sink, log })
  | none =>
    let (result, pass) := formatter.writeReport fs sink reading.files reading.findings analyzed
    (result, { pass with log := log ++ pass.log })

end Formatter

end Findings
