import Findings.Bundle.Basic
import Findings.Bundle.Identity

/-!
# Enrichment

Reading a bundle leniently: entries that do not decode, or that refer to files outside the file
table, are reported and left out, and every finding gets a checker name and an identity hash.
A derived hash is also written into the JSON entry it belongs to, so that the enriched document
can replace the file it was read from.
-/

namespace Findings

/-- What reading a bundle gives. -/
structure Reading where
  files : FileTable := {}
  findings : List Finding := []
  /-- A hash was derived, so that the enriched document differs from the one read. -/
  isDirty : Bool := false
  /-- The enriched document has replaced the file. -/
  replaced : Bool := false
  failure : Option BundleError := none

namespace Reading

def failed (failure : BundleError) : Reading :=
  { failure := some failure }

end Reading

/-- How bundles are read. -/
structure Enricher where
  hasher : ContentHasher := Identity.pathShape
  /-- The directory that the paths of file tables are relative to. -/
  sourceRoot : Option String := none
  /-- Whether an enriched document may replace the file it was read from. -/
  mayReplace : Bool := true

namespace Enricher

/-- The path at which the source of a file table entry is found. Below a source root, leading
slashes of the entry do not count. -/
def resolve (enricher : Enricher) (entry : String) : String :=
  match enricher.sourceRoot with
  | some root => FilePath.join root (.ofList (entry.toList.dropWhile (· = '/')))
  | none => entry

/-- The first file of a diagnostic that the table does not have. -/
def outside? (files : FileTable) (diagnostic : Diagnostic) : Option FileIndex :=
  diagnostic.files.find? fun index => (files.get? index).isNone

/-- An entry with a hash written into it. -/
def withHash (hash : String) : Json → Json
  | .object members => .object (Entries.set Diagnostic.hashKey (.string hash) members)
  | value => value

/-- What becomes of one entry of a bundle. -/
structure Entry where
  raw : Json
  finding : Option Finding := none
  /-- A hash was derived and written into the entry. -/
  isEnriched : Bool := false
  log : Log

/-- Reads one entry, the one at position `index` of the bundle `origin`. -/
def readEntry (enricher : Enricher) (fs : FileSystem) (files : FileTable) (origin : String)
    (index : Nat) (raw : Json) (sources : SourceCache) : Entry × SourceCache :=
  match Diagnostic.ofJson raw with
  | .error e =>
    let warning := .warn s!"skipping diagnostic #{index} in {origin}: {e.message}"
    ({ raw, log := [warning] }, sources)
  | .ok diagnostic =>
    match outside? files diagnostic with
    | some bad =>
      let warning := .warn (s!"skipping diagnostic #{index} in {origin}: file index "
        ++ s!"{bad.toNat} is outside the file table ({files.size} entries)")
      ({ raw, log := [warning] }, sources)
    | none =>
      let (checker, log) := Identity.checkerName diagnostic origin
      let sourcePath := enricher.resolve ((files.get? diagnostic.primaryFile).getD "")
      let ((hash, hashOrigin), sources) :=
        Identity.identityHash diagnostic enricher.hasher sourcePath checker sources fs
      let finding : Finding := {
        checkerName := checker
        identityHash := hash
        hashOrigin
        location := diagnostic.location
        description := diagnostic.description
        path := diagnostic.path
        extra := diagnostic.extra }
      if hashOrigin = .derived then
        ({ raw := withHash hash raw, finding, isEnriched := true, log }, sources)
      else ({ raw, finding, log }, sources)

/-- Reads the entries in order, the first at position `index`. -/
def readEntries (enricher : Enricher) (fs : FileSystem) (files : FileTable) (origin : String) :
    (index : Nat) → List Json → SourceCache → List Entry × SourceCache
  | _, [], sources => ([], sources)
  | index, raw :: rest, sources =>
    let (entry, sources) := enricher.readEntry fs files origin index raw sources
    let (entries, sources) := enricher.readEntries fs files origin (index + 1) rest sources
    (entry :: entries, sources)

/-- What reading a document gives: the reading, the enriched document if there is one, what was
reported, and the source cache after it. -/
structure Outcome where
  reading : Reading
  document : Option Json := none
  log : Log := []
  sources : SourceCache

/-- The outcome for a text that is no bundle. -/
def fail (sources : SourceCache) (origin : String) (defect : BundleDefect)
    (files : FileTable := {}) : Outcome :=
  let failure := BundleError.malformed origin defect
  { reading := { Reading.failed failure with files }
    log := [.error failure.message]
    sources }

/-- Reads the members of the top level of a bundle. -/
def readMembers (enricher : Enricher) (fs : FileSystem) (members : List (String × Json))
    (origin : String) (sources : SourceCache) : Outcome :=
  match Entries.get? "files" members with
  | none => fail sources origin .missingFiles
  | some value =>
    match FileTable.ofJson value with
    | .error e => fail sources origin (.invalidFiles e)
    | .ok files =>
      match Entries.get? "diagnostics" members with
      | none => { reading := { files }, document := some (.object members), sources }
      | some (.array items) =>
        let (entries, sources) := enricher.readEntries fs files origin 0 items sources
        let enriched := Json.array (entries.map Entry.raw)
        { reading := {
            files
            findings := entries.filterMap Entry.finding
            isDirty := entries.any Entry.isEnriched }
          document := some (.object (Entries.set "diagnostics" enriched members))
          log := entries.flatMap Entry.log
          sources }
      | some _ => fail sources origin .diagnosticsNotAList files

/-- Reads a bundle from a text and enriches it. -/
def readDocument (enricher : Enricher) (fs : FileSystem) (content origin : String)
    (sources : SourceCache) : Outcome :=
  match Json.parse content with
  | .error e => fail sources origin (.notJson e)
  | .ok value =>
    match value.collapse with
    | .object members => enricher.readMembers fs members origin sources
    | _ => fail sources origin .notAnObject

/-- Reads the bundle at a path. If a hash had to be derived and it is allowed, the enriched
document replaces the file. A failure to write it is reported, and the reading stands. -/
def readPath (enricher : Enricher) (fs : FileSystem) (path : String) (sources : SourceCache) :
    Reading × Log × SourceCache × FileSystem :=
  match fs.readText path with
  | .error e =>
    (.failed (.io path (.file e)), [.error s!"cannot read bundle {path}: {e.message}"], sources, fs)
  | .ok content =>
    let outcome := enricher.readDocument fs content path sources
    match outcome.document with
    | some document =>
      if outcome.reading.isDirty && enricher.mayReplace then
        match fs.rewrite path false fun _ => (document.pretty, ()) with
        | (.ok (), fs) =>
          ({ outcome.reading with replaced := true }, outcome.log, outcome.sources, fs)
        | (.error e, fs) =>
          let failure := LogEntry.error (BundleError.io path e.error).message
          (outcome.reading, outcome.log ++ [failure], outcome.sources, fs)
      else (outcome.reading, outcome.log, outcome.sources, fs)
    | none => (outcome.reading, outcome.log, outcome.sources, fs)

end Enricher

/-- Reads a bundle from a text with the default settings. -/
def readBundle (fs : FileSystem) (content origin : String) : Reading × Log :=
  let outcome := Enricher.readDocument {} fs content origin .empty
  (outcome.reading, outcome.log)

end Findings
