import Findings.CommandLine.Settings
import Findings.Json.Printer
import Findings.Report.Formatter

/-!
# Running commands

The commands as functions on a file system. A command writes to an output stream, gives notices in
order, and ends with an exit code or with an error.

- `reportBundles`: the reports of several bundles, and their totals.
- `filterBundles`: several bundles filtered in place.
- `run`: a whole invocation.
-/

namespace Findings.CommandLine

/-- Why a command was given up. -/
inductive RunError where
  | config (error : ConfigError)
  | unreadableSeverityMap (path : String) (error : FileError)
  | invalidSeverityMap (path : String) (defect : SeverityMap.Defect)
  | suppression (error : SuppressionError)
  | report (error : ReportError)
  | output (reason : String)
  | noSuppressionFile
  deriving DecidableEq, Repr

namespace RunError

def message : RunError → String
  | config e => e.message
  | unreadableSeverityMap path e => s!"cannot read severity map {path}: {e.message}"
  | invalidSeverityMap path defect => s!"invalid severity map {path}: {defect.message}"
  | suppression e => e.message
  | report e => e.message
  | output reason => reason
  | noSuppressionFile =>
    "no suppression file given; pass --suppress or set suppress.file in quell.toml"

end RunError

/-- What a command says besides its output. -/
inductive Notice where
  | log (entry : LogEntry)
  | line (text : String)
  deriving DecidableEq, Repr

/-- The notice as it is shown. Only log entries have their control characters spelled out. -/
def Notice.shown : Notice → Notice
  | log entry => log entry.shown
  | line text => line text

/-- What a command leaves behind. -/
structure Outcome where
  result : Except RunError Nat
  sink : Sink
  notices : List Notice := []
  fs : FileSystem

namespace Outcome

/-- The exit code: an error counts as failure. -/
def code (outcome : Outcome) : Nat :=
  match outcome.result with
  | .ok code => code
  | .error _ => 1

/-- All that is said, as it is shown, the error that ended the command last. -/
def allNotices (outcome : Outcome) : List Notice :=
  let notices := outcome.notices.map Notice.shown
  match outcome.result with
  | .ok _ => notices
  | .error e => notices ++ [.line s!"error: {e.message}"]

end Outcome

/-! ## Reports -/

/-- The state while the reports of several bundles are written. -/
structure Session where
  formatter : Formatter
  fs : FileSystem
  sink : Sink
  totals : Stats := {}
  /-- How many bundles could not be read. -/
  failed : Nat := 0
  log : Log := []

namespace Session

/-- Writes the report of one bundle. As JSON, only the totals are kept. An error ends the session.
-/
def reportBundle (session : Session) (format : ReportFormat) (analyzed : Option String)
    (bundle : String) : Option ReportError × Session :=
  let sink := if format = .json then {} else session.sink
  let (result, pass) := session.formatter.reportBundle session.fs sink bundle analyzed
  let session := { session with
    formatter := pass.formatter
    fs := pass.fs
    sink := if format = .json then session.sink else pass.sink
    log := session.log ++ pass.log }
  match result with
  | .ok stats => (none, { session with totals := session.totals.merge stats })
  | .error (.invalidBundle _ _) => (none, { session with failed := session.failed + 1 })
  | .error e => (some e, session)

/-- Writes the reports of bundles in order. -/
def reportBundles (session : Session) (format : ReportFormat) (analyzed : Option String) :
    List String → Option ReportError × Session
  | [] => (none, session)
  | bundle :: bundles =>
    match session.reportBundle format analyzed bundle with
    | (some e, session) => (some e, session)
    | (none, session) => reportBundles session format analyzed bundles

/-- What a session leaves behind that ends with `result`, after further log entries. -/
def outcome (session : Session) (result : Except RunError Nat) (log : Log := []) : Outcome :=
  { result, sink := session.sink, notices := (session.log ++ log).map .log, fs := session.fs }

/-- Ends a session over a number of bundles: it has failed if a bundle could not be read. -/
def finish (session : Session) (bundles : Nat) : Outcome :=
  if session.failed = 0 then session.outcome (.ok 0)
  else
    session.outcome (.ok 1)
      [.error s!"{session.failed} of {bundles} bundle(s) could not be parsed"]

end Session

/-- The severities of a report: the configured ones, and over them those of a file. -/
def reportSeverities (fs : FileSystem) (config : Config) (file : Option String) :
    Except RunError SeverityMap :=
  match file with
  | none => .ok config.severities
  | some path =>
    match fs.readText path with
    | .error e => .error (.unreadableSeverityMap path e)
    | .ok content =>
      match SeverityMap.parse content with
      | .error defect => .error (.invalidSeverityMap path defect)
      | .ok map => .ok (config.severities.extend map)

/-- The formatter of a report. -/
def reportFormatter (fs : FileSystem) (settings : Settings) (options : ReportOptions) :
    Except RunError Formatter := do
  let config := settings.config
  let severities ← reportSeverities fs config options.severityMap
  let store ←
    (SuppressionStore.openStore fs (settings.suppressionFile? options.suppressionFile)
      (options.writable || config.writable)).mapError .suppression
  let skipList ← (settings.skipList options.skipPatterns).mapError .config
  .ok {
    severities
    policy := if skipList.isEmpty then none else some skipList.policy
    store := some store
    printSteps := options.printSteps || config.printSteps
    enricher := {
      sourceRoot := options.sourceRoot.or config.sourceRoot
      mayReplace := config.mayReplace && !options.keepBundles } }

/-- Reports bundles. -/
def runReport (fs : FileSystem) (sink : Sink) (settings : Settings) (options : ReportOptions) :
    Outcome :=
  match reportFormatter fs settings options with
  | .error e => { result := .error e, sink, fs }
  | .ok formatter =>
    let (error, session) :=
      Session.reportBundles { formatter, fs, sink } options.format options.analyzedFile
        options.bundles
    match error with
    | some e => session.outcome (.error (.report e))
    | none =>
      match options.format with
      | .text => session.finish options.bundles.length
      | .json =>
        let (complete, sink) := session.sink.write (session.totals.toJson.pretty ++ "\n")
        let session := { session with sink }
        if complete then session.finish options.bundles.length
        else session.outcome (.error (.output Sink.fullMessage))

/-! ## Filtering -/

/-- Filters bundles in place, in order. Returns whether all went well, and what is said. -/
def filterBundles (policy : SkipPolicy) (fs : FileSystem) :
    List String → Bool × List Notice × FileSystem
  | [] => (true, [], fs)
  | bundle :: bundles =>
    let (result, log, fs) := filterFile policy fs bundle
    let (good, notices, fs) := filterBundles policy fs bundles
    match result with
    | .ok () => (good, log.map .log ++ .line s!"    Filtered {bundle}" :: notices, fs)
    | .error e => (false, log.map .log ++ .log (.error e.message) :: notices, fs)

/-- Filters bundles by the skip list of the call or of the configuration. -/
def runSkip (fs : FileSystem) (sink : Sink) (settings : Settings) (options : SkipOptions) :
    Outcome :=
  match settings.skipList options.skipPatterns with
  | .error e => { result := .error (.config e), sink, fs }
  | .ok skipList =>
    if skipList.isEmpty then
      let warning := LogEntry.warn "no skip patterns configured, bundles left unchanged"
      { result := .ok 0, sink, notices := [.log warning], fs }
    else
      let (good, notices, fs) := filterBundles skipList.policy fs options.bundles
      { result := .ok (if good then 0 else 1), sink, notices, fs }

/-! ## Suppressions -/

/-- A record as it is listed. -/
def listedLine (record : Suppression) : String :=
  s!"{record.hash}  {record.fileName}  {record.comment}\n"

/-- Lists the records of a store. -/
def listRecords (fs : FileSystem) (sink : Sink) (store : SuppressionStore) : Outcome :=
  let (complete, sink) := sink.write (String.join (store.records.map listedLine))
  { result := if complete then .ok 0 else .error (.output Sink.fullMessage), sink, fs }

/-- Opens a suppression file for changes, and makes one. -/
def changeStore (fs : FileSystem) (sink : Sink) (file : String)
    (change : SuppressionStore →
      Except SuppressionError Unit × SuppressionStore × FileSystem) : Outcome :=
  match SuppressionStore.openStore fs (some file) true with
  | .error e => { result := .error (.suppression e), sink, fs }
  | .ok store =>
    let (result, _, fs) := change store
    { result := (result.mapError .suppression).map fun _ => 0, sink, fs }

/-- Changes or lists a suppression file. -/
def runAction (fs : FileSystem) (sink : Sink) (file : String) : SuppressAction → Outcome
  | .add hash reported comment => changeStore fs sink file fun store =>
    store.add fs hash reported comment
  | .remove hash reported => changeStore fs sink file fun store => store.remove fs hash reported
  | .list =>
    match SuppressionStore.openStore fs (some file) false with
    | .error e => { result := .error (.suppression e), sink, fs }
    | .ok store => listRecords fs sink store

def runSuppress (fs : FileSystem) (sink : Sink) (settings : Settings) (file : Option String)
    (action : SuppressAction) : Outcome :=
  match settings.suppressionFile? file with
  | none => { result := .error .noSuppressionFile, sink, fs }
  | some file => runAction fs sink file action

/-! ## Invocations -/

/-- Whether a notice is shown. Only errors are shown when quiet, unless verbose. -/
def Invocation.shows (invocation : Invocation) : Notice → Bool
  | .log entry => entry.level = .error || invocation.verbose || !invocation.quiet
  | .line _ => !invocation.quiet

/-- Runs a command. Notices that the invocation does not show are left out. -/
def run (fs : FileSystem) (sink : Sink) (invocation : Invocation) : Outcome :=
  match Settings.load fs invocation.config with
  | .error e => { result := .error (.config e), sink, fs }
  | .ok settings =>
    let outcome :=
      match invocation.command with
      | .report options => runReport fs sink settings options
      | .skip options => runSkip fs sink settings options
      | .suppress file action => runSuppress fs sink settings file action
    { outcome with notices := outcome.notices.filter invocation.shows }

end Findings.CommandLine
