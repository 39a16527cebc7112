import Findings.Proofs.Bundle.Accounting
import Findings.Proofs.Report.Blocks

/-!
# Every finding of a bundle is accounted for

The report of a finding looks up the files of three kinds of locations: the one it is displayed
under, its anchor, and each of its events. These are chosen among the locations of its path and its
own, and a finding that was read has all of them in the file table. So a report neither drops such a
finding for want of a file nor leaves out a step.

* `Finding.Resolves`: what is looked up for a finding is in the table; `resolves_of_readDocument`,
  `resolves_of_readPath`: this holds of the findings of a bundle; `Judged.of_resolves`: then none is
  left out for it.
* `stepsText_eq_join`: then all steps are listed.
* `accountsFor_of_readPath`: a report of a bundle shows and counts each finding once, or else the
  policy, the store or a marker says why not.
-/

namespace Findings

/-! ## The files of a finding -/

/-- Every file that a report looks up for a finding is in the table. -/
structure Finding.Resolves (files : FileTable) (finding : Finding) : Prop where
  display : ∃ displayFile, finding.displayFile? files = some displayFile
  anchor : ∃ entry, files.get? finding.anchor.1.file = some entry
  events : ∀ event ∈ finding.locatedEvents, ∃ entry, files.get? event.1.file = some entry

theorem Location.Resolves.exists_get? {files : FileTable} {location : Location}
    (h : location.Resolves files) : ∃ entry, files.get? location.file = some entry :=
  Option.isSome_iff_exists.1 (FileTable.get?_isSome_iff.2 h)

namespace Finding

variable {files : FileTable} {finding : Finding} {step : Step}

theorem mem_path_of_lastStep? (h : finding.lastStep? = some step) : step ∈ finding.path :=
  List.mem_of_getLast? (Option.filter_eq_some_iff.1 h).1

theorem mem_path_of_lastEvent? (h : finding.lastEvent? = some step) : step ∈ finding.path := by
  have hmem : step ∈ finding.path.reverse.filter fun step => step.location.isSome := by
    obtain h | ⟨-, h⟩ := Option.or_eq_some_iff.1 h
    · exact List.mem_of_find?_eq_some h
    · exact List.mem_of_head? h
  exact List.mem_reverse.1 (List.mem_filter.1 hmem).1

/-- The locations that are looked up are that of the finding and those of its path. -/
theorem resolves_of_locations (hown : finding.location.Resolves files)
    (hsteps : ∀ step ∈ finding.path, ∀ location ∈ step.location, location.Resolves files) :
    finding.Resolves files := by
  have hor {step : Step} (hs : step ∈ finding.path) :
      (step.location.getD finding.location).Resolves files := by
    cases hl : step.location with
    | none => exact hown
    | some location => exact hsteps step hs location hl
  refine ⟨?_, ?_, ?_⟩
  · unfold displayFile?
    cases he : finding.lastEvent? with
    | none => exact hown.exists_get?
    | some step => exact (hor (mem_path_of_lastEvent? he)).exists_get?
  · unfold anchor
    cases hs : finding.lastStep?.or finding.lastEvent? with
    | none => exact hown.exists_get?
    | some step =>
      refine (hor ?_).exists_get?
      obtain hs | ⟨-, hs⟩ := Option.or_eq_some_iff.1 hs
      · exact mem_path_of_lastStep? hs
      · exact mem_path_of_lastEvent? hs
  · intro event he
    obtain ⟨step, hs, he⟩ := List.mem_filterMap.1 he
    obtain ⟨location, hl, rfl⟩ := Option.map_eq_some_iff.1 he
    exact (hsteps step (List.mem_filter.1 hs).1 location hl).exists_get?

end Finding

namespace Enricher

variable {enricher : Enricher} {fs : FileSystem} {content origin path : String}
  {sources : SourceCache}

/-- The findings of a text that is a bundle look up files of its table only. -/
theorem resolves_of_readDocument
    (h : (enricher.readDocument fs content origin sources).reading.failure = none) :
    ∀ finding ∈ (enricher.readDocument fs content origin sources).reading.findings,
      finding.Resolves (enricher.readDocument fs content origin sources).reading.files := by
  obtain ⟨value, members, table, entries, -, -, -, -, hentries, hread, -⟩ :=
    exists_entries enricher fs origin sources h
  intro finding hf
  have hfindings := congrArg Reading.findings hread
  obtain ⟨entry, he, hfi⟩ := List.mem_filterMap.1 (hfindings ▸ hf)
  obtain ⟨i, raw, hreads⟩ := exists_readsAs_of_mem hentries he
  obtain ⟨diagnostic, -, hres, hloc, hpath, -⟩ := hreads.decoded hfi
  exact Finding.resolves_of_locations (hloc ▸ hres.own) (hpath ▸ hres.steps)

/-- The findings of a bundle that can be read look up files of its table only. -/
theorem resolves_of_readPath (h : (enricher.readPath fs path sources).1.failure = none) :
    ∀ finding ∈ (enricher.readPath fs path sources).1.findings,
      finding.Resolves (enricher.readPath fs path sources).1.files := by
  cases ht : fs.readText path with
  | error e =>
    simp only [readPath, ht] at h
    cases h
  | ok content =>
    obtain ⟨replaced, hr⟩ := enricher.readPath_of_readText fs sources ht
    rw [hr] at h ⊢
    exact resolves_of_readDocument h

end Enricher

/-- What reading a bundle gives, from a file or from a text, if it can be read. -/
inductive Reading.OfBundle : Reading → Prop
  | ofFile (enricher : Enricher) (fs : FileSystem) (path : String) (sources : SourceCache)
    (h : (enricher.readPath fs path sources).1.failure = none) :
    OfBundle (enricher.readPath fs path sources).1
  | ofText (enricher : Enricher) (fs : FileSystem) (content origin : String)
    (sources : SourceCache)
    (h : (enricher.readDocument fs content origin sources).reading.failure = none) :
    OfBundle (enricher.readDocument fs content origin sources).reading

theorem Reading.OfBundle.resolves {reading : Reading} (h : reading.OfBundle) :
    ∀ finding ∈ reading.findings, finding.Resolves reading.files := by
  cases h with
  | ofFile _ _ _ _ h => exact Enricher.resolves_of_readPath h
  | ofText _ _ _ _ _ h => exact Enricher.resolves_of_readDocument h

/-- A finding whose files are in the table is not left out for want of one. -/
theorem Judged.of_resolves {files : FileTable} {pass : Pass} {finding : Finding} {verdict : Verdict}
    (h : Judged files pass finding verdict) (hr : finding.Resolves files) :
    verdict ≠ .outsideTable ∧ verdict ≠ .withoutAnchor := by
  obtain ⟨⟨displayFile, hd⟩, ⟨entry, he⟩, -⟩ := hr
  cases h with
  | outsideTable hnone =>
    rw [hd] at hnone
    cases hnone
  | withoutAnchor _ _ _ hnone =>
    rw [he] at hnone
    cases hnone
  | excluded => exact ⟨nofun, nofun⟩
  | suppressed => exact ⟨nofun, nofun⟩
  | marked => exact ⟨nofun, nofun⟩
  | shown => exact ⟨nofun, nofun⟩

/-! ## The steps of a finding -/

namespace Enricher

variable (enricher : Enricher) (lookup : String → Option SourceFile) {files : FileTable}

/-- A numbered step, and the source line of its location. -/
def stepText (files : FileTable) (width : Nat) (event : Location × String) (number : Nat) :
    String :=
  let entry := (files.get? event.1.file).getD ""
  stepLineText width number entry event.1 event.2 ++ "\n" ++
    enricher.contextText lookup entry event.1

/-- Steps whose files are in the table are all listed. -/
theorem stepsText_eq_join (width number : Nat) {located : List (Location × String)}
    (h : ∀ event ∈ located, ∃ entry, files.get? event.1.file = some entry) :
    enricher.stepsText lookup files width number located =
      String.join ((located.zipIdx number).map fun (event, number) =>
        enricher.stepText lookup files width event number) := by
  induction located generalizing number with
  | nil => rfl
  | cons event rest ih =>
    obtain ⟨location, message⟩ := event
    obtain ⟨⟨entry, he⟩, hrest⟩ := List.forall_mem_cons.1 h
    rw [List.zipIdx_cons, List.map_cons, String.join_cons, ← ih (number + 1) hrest]
    simp only [stepsText, stepText, he, Option.getD_some, String.append_assoc]

end Enricher

namespace Formatter

variable (formatter : Formatter) {files : FileTable} (lookup : String → Option SourceFile)

/-- The text of a finding in full: the first line with its source line, all its steps if they are
listed, and a blank line. -/
def fullText (files : FileTable) (finding : Finding) : String :=
  let (location, message) := finding.anchor
  let entry := (files.get? location.file).getD ""
  let events := finding.locatedEvents
  let width := (toString events.length).length
  let steps := (events.zipIdx 1).map fun (event, number) =>
    formatter.enricher.stepText lookup files width event number
  let header :=
    headerText (formatter.severityOf finding) finding.checkerName entry location message ++ "\n"
  let list :=
    if formatter.printSteps then
      s!"  Report hash: {finding.identityHash}\n" ++ "  Steps:\n" ++ String.join steps
    else ""
  header ++ formatter.enricher.contextText lookup entry location ++ list ++ "\n"

theorem blockText_eq_fullText {finding : Finding} (h : finding.Resolves files) :
    formatter.blockText files lookup finding = formatter.fullText lookup files finding := by
  obtain ⟨entry, he⟩ := h.anchor
  simp only [blockText, fullText, he, Option.getD_some, stepListText,
    formatter.enricher.stepsText_eq_join lookup _ 1 h.events]

theorem map_blockText_shown {findings : List Finding}
    (h : ∀ finding ∈ findings, finding.Resolves files) (pass : Pass) :
    (pass.shown files findings).map (formatter.blockText files lookup) =
      (pass.shown files findings).map (formatter.fullText lookup files) :=
  List.map_congr_left fun finding hf => formatter.blockText_eq_fullText lookup
    (h finding ((pass.shown_sublist files findings).subset hf))

/-! ## Reports of bundles -/

/-- A report of what was read accounts for each of the findings, in order. -/
structure AccountsFor (formatter : Formatter) (fs : FileSystem) (reading : Reading)
    (analyzed : Option String) (start : Pass) (shown : List Finding) : Prop where
  /-- Whatever file is looked up is in the table. -/
  resolves : ∀ finding ∈ reading.findings, finding.Resolves reading.files
  in_order : (start.turns reading.files reading.findings).map Prod.snd = reading.findings
  /-- A finding is left out by the policy, by the store or by a marker, and else it is shown. -/
  judged : ∀ turn ∈ start.turns reading.files reading.findings,
    let verdict := (turn.1.judge reading.files turn.2).1
    Judged reading.files turn.1 turn.2 verdict ∧
      verdict ≠ .outsideTable ∧ verdict ≠ .withoutAnchor
  /-- The findings that are shown are written in full, each once. -/
  written : ∃ lookup, formatter.Reports fs reading.files reading.findings analyzed
    (String.join (shown.map (formatter.fullText lookup reading.files)) ++
      Layout.summary (.ofNat shown.length) analyzed)
    (formatter.statsOf reading.files shown)
  /-- They are counted, each once in every way. -/
  counted : (formatter.statsOf reading.files shown).reportCount = .ofNat shown.length ∧ ∀ key,
    (formatter.statsOf reading.files shown).severity.count key =
        .ofNat (shown.countP (formatter.severityOf · = key)) ∧
      (formatter.statsOf reading.files shown).files.count key =
        .ofNat (shown.countP (·.displayFile reading.files = key))

/-- Whatever bundle was read, and with whatever formatter, a report of its findings accounts for
each of them. -/
theorem accountsFor_of_readPath {enricher : Enricher} {fs : FileSystem} {path : String}
    {sources : SourceCache} (h : (enricher.readPath fs path sources).1.failure = none)
    (formatter : Formatter) (fs' : FileSystem) (analyzed : Option String) :
    let reading := (enricher.readPath fs path sources).1
    let start : Pass := { formatter, fs := fs', sink := {} }
    formatter.AccountsFor fs' reading analyzed start
      (start.shown reading.files reading.findings) := by
  intro reading start
  have hres : ∀ finding ∈ reading.findings, finding.Resolves reading.files :=
    Enricher.resolves_of_readPath h
  have horder := start.map_snd_turns reading.files reading.findings
  refine ⟨hres, horder, ?_, ?_, (formatter.counts_statsOf reading.files _).reportCount,
    count_statsOf formatter reading.files _⟩
  · intro turn ht verdict
    have hj : Judged reading.files turn.1 turn.2 verdict := Findings.judged ..
    exact ⟨hj, hj.of_resolves (hres turn.2 (horder ▸ List.mem_map_of_mem ht))⟩
  · obtain ⟨lookup, after, hw⟩ :=
      Writing.writes_shown reading.files start rfl rfl reading.findings analyzed
    refine ⟨lookup, fun sink => ?_⟩
    rw [← formatter.map_blockText_shown lookup hres start]
    exact hw.outcome sink

/-- A finding in a header, one whose hash is stored, one on the line of a marker, and one whose path
ends in a step without a location. -/
def fourFates : Json :=
  bundleOf ["a.c", "b.c", "c.h"] [
    recordIn 2 [(Diagnostic.hashKey, .string "g")],
    recordIn 0 [(Diagnostic.hashKey, .string "h")],
    recordIn 1 [(Diagnostic.hashKey, .string "i")],
    recordIn 1 [(Diagnostic.hashKey, .string "j"),
      ("path", .array [recordIn 0 [("kind", .string "event")], .object [("kind", .string "x")]])]]

/-- A formatter that leaves out headers, has one suppression, and lists steps. -/
def listing : Formatter where
  policy := some (excluding "c.h").policy
  store := some { backing := none, writable := false, records := [⟨"h", "a.c", ""⟩] }
  printSteps := true

theorem parse_pretty_fourFates : Json.parse fourFates.pretty = .ok fourFates :=
  Json.parse_pretty_of_numbers_eq [1, 1, 2, 1, 1, 0, 1, 1, 1, 1, 1, 1, 1, 1, 0] (by decide) rfl
    (by decide)

/-- Of its four findings only the last is shown, and with its step. -/
theorem accountsFor_fourFates :
    let reading := (unchanging.enricher.readPath (filesWith fourFates) "b.json" {}).1
    let start : Pass := { formatter := listing, fs := filesWith fourFates, sink := {} }
    reading.failure = none ∧
      (start.turns reading.files reading.findings).map
          (fun turn => (turn.1.judge reading.files turn.2).1) =
        [.excluded, .suppressed, .marked, .shown "a.c" "a.c"] ∧
      listing.AccountsFor (filesWith fourFates) reading none start
        (start.shown reading.files reading.findings) := by
  have h : (unchanging.enricher.readPath (filesWith fourFates) "b.json" {}).1.failure = none := by
    rw [readPath_filesWith rfl parse_pretty_fourFates rfl]
    decide +kernel
  refine ⟨h, ?_, accountsFor_of_readPath h listing (filesWith fourFates) none⟩
  rw [readPath_filesWith rfl parse_pretty_fourFates rfl]
  decide +kernel

end Formatter

end Findings
