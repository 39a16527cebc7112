import Findings.Proofs.Report.Accounting
import Findings.Proofs.Report.Resources

/-!
# Reports with and without steps

Listing the steps adds a section to every finding that is shown, and changes nothing else. The two
reports are taken side by side: where sources are the same function of the path for both, their
passes stay the same up to the sources that were read so far and to what was written.

* `stepSection`: the section of the steps; `listsEvents_stepSection`: what it lists.
* `fullText_without`, `fullText_listing`: the texts of a finding without it and with it.
* `Beside`: the passes of the two reports; `Beside.judge`, `Beside.finding`, `Beside.findings`: what
  becomes of one finding, and of all of them.
* `onlyAddsSteps_of_bundle`: both reports of a bundle.
-/

namespace Findings

/-! ## Numbers in a column -/

namespace Layout

/-- A text is a number with blanks before it, and `width` characters long. -/
structure RightAligned (width number : Nat) (text : String) : Prop where
  length_eq : text.length = width
  blanks_first : ∃ blanks, text = .ofList (List.replicate blanks ' ') ++ toString number

theorem rightAligned_alignRight {width number : Nat} (h : (toString number).length ≤ width) :
    RightAligned width number (alignRight width number) where
  length_eq := by
    rw [← String.length_toList] at h
    rw [alignRight, String.length_ofList, List.length_append, List.length_replicate]
    omega
  blanks_first :=
    ⟨width - (toString number).toList.length, by
      rw [alignRight, String.ofList_append, String.ofList_toList]⟩

/-- A number is at least as long as those below it. -/
theorem length_toString_le {n m : Nat} (h : n ≤ m) :
    (toString n).length ≤ (toString m).length := by
  have hpos : 0 < m.repr.length := by
    rw [Nat.repr_eq_ofList_toDigits, String.length_ofList]
    exact Nat.length_toDigits_pos
  have hlt : m < 10 ^ m.repr.length := (Nat.length_repr_le_iff hpos).1 le_rfl
  exact (Nat.length_repr_le_iff hpos).2 (Nat.lt_of_le_of_lt h hlt)

end Layout

/-! ## The section of the steps -/

namespace Finding

variable (finding : Finding)

/-- The steps that are listed: events with a location. -/
def listed : List Step :=
  finding.path.filter fun step => step.isEvent && step.location.isSome

theorem locatedEvents_eq : finding.locatedEvents =
    finding.listed.map fun step =>
      (step.location.getD finding.location, step.message.getD "") := by
  unfold locatedEvents events listed
  induction finding.path with
  | nil => rfl
  | cons step path ih =>
    cases he : step.isEvent <;> cases hl : step.location <;> simp_all

theorem length_locatedEvents : finding.locatedEvents.length = finding.listed.length := by
  rw [locatedEvents_eq, List.length_map]

end Finding

namespace Enricher

variable (enricher : Enricher) (lookup : String → Option SourceFile) (files : FileTable)

/-- A text lists a step under a number: with its place and message, and with the source line of its
location if `lookup` has that line. -/
def IsItem (width : Nat) (step : Step) (number : Nat) (text : String) : Prop :=
  ∃ location entry aligned, step.location = some location ∧
    files.get? location.file = some entry ∧ Layout.RightAligned width number aligned ∧
    text =
      "    " ++ aligned ++ ", " ++ placeText entry location (step.message.getD "") ++ "\n" ++
        enricher.contextText lookup entry location

/-- A text names the hash of a finding and lists each of its events with a location once, in the
order of the path. They are numbered from 1 on, and the numbers are as wide as the last one. -/
def ListsEvents (finding : Finding) (text : String) : Prop :=
  ∃ items : List String,
    List.Forall₂ (fun item text =>
        enricher.IsItem lookup files (toString finding.listed.length).length item.1 item.2 text)
      (finding.listed.zipIdx 1) items ∧
    text = s!"  Report hash: {finding.identityHash}\n" ++ "  Steps:\n" ++ String.join items

/-- The section that is added to a finding when steps are listed. -/
def stepSection (finding : Finding) : String :=
  let events := finding.locatedEvents
  let width := (toString events.length).length
  s!"  Report hash: {finding.identityHash}\n" ++ "  Steps:\n" ++
    String.join ((events.zipIdx 1).map fun (event, number) =>
      enricher.stepText lookup files width event number)

variable {files}

theorem isItem_stepText {finding : Finding} (h : finding.Resolves files) {width number : Nat}
    (hw : (toString number).length ≤ width) {step : Step} (hs : step ∈ finding.listed) :
    enricher.IsItem lookup files width step number
      (enricher.stepText lookup files width
        (step.location.getD finding.location, step.message.getD "") number) := by
  have hmem : (step.location.getD finding.location, step.message.getD "") ∈
      finding.locatedEvents := by
    rw [finding.locatedEvents_eq]
    exact List.mem_map_of_mem hs
  obtain ⟨entry, he⟩ := h.events _ hmem
  have hlocated := (List.mem_filter.1 hs).2
  cases hl : step.location with
  | none => simp [hl] at hlocated
  | some location =>
    rw [hl, Option.getD_some] at he
    refine ⟨location, entry, _, hl, he, Layout.rightAligned_alignRight hw, ?_⟩
    simp only [stepText, stepLineText, Option.getD_some, he]

/-- Where all files are in the table no step is left out, so no number is. -/
theorem listsEvents_stepSection {finding : Finding} (h : finding.Resolves files) :
    enricher.ListsEvents lookup files finding (enricher.stepSection lookup files finding) := by
  refine ⟨_, ?_, rfl⟩
  rw [finding.length_locatedEvents, finding.locatedEvents_eq, List.zipIdx_map, List.map_map,
    List.forall₂_map_right_iff, List.forall₂_same]
  rintro ⟨step, number⟩ hm
  obtain ⟨hpos, hlt, hstep⟩ := List.mem_zipIdx hm
  have hw : (toString number).length ≤ (toString finding.listed.length).length :=
    Layout.length_toString_le (by omega)
  exact enricher.isItem_stepText lookup h hw (hstep ▸ List.getElem_mem _)

end Enricher

namespace Formatter

variable (formatter : Formatter) (lookup : String → Option SourceFile) (files : FileTable)

/-- What comes before the steps of a finding: its first line, with the source line. -/
def leadText (finding : Finding) : String :=
  let (location, message) := finding.anchor
  let entry := (files.get? location.file).getD ""
  headerText (formatter.severityOf finding) finding.checkerName entry location message ++ "\n" ++
    formatter.enricher.contextText lookup entry location

/-- A formatter that lists steps, or does not. -/
def withSteps (printSteps : Bool) : Formatter :=
  { formatter with printSteps }

theorem fullText_without :
    (formatter.withSteps false).fullText lookup files =
      fun finding => formatter.leadText lookup files finding ++ "\n" := by
  funext finding
  change formatter.leadText lookup files finding ++ "" ++ "\n" = _
  rw [String.append_empty]

theorem fullText_listing :
    (formatter.withSteps true).fullText lookup files = fun finding =>
      formatter.leadText lookup files finding ++
        formatter.enricher.stepSection lookup files finding ++ "\n" :=
  rfl

end Formatter

/-! ## Two reports side by side -/

/-- What the passes have in common if only one of them lists steps: all but this setting, the
sources read so far, and what was written, counted and logged. -/
def Pass.common (pass : Pass) : Formatter × FileSystem :=
  ({ pass.formatter with sources := .empty, printSteps := false }, pass.fs)

theorem Writing.unwritten_common : Unwritten Pass.common where
  sink _ _ := rfl
  sources _ _ := rfl

/-- The passes of two reports, of which only one may list steps. Both have room for all that is
written, and sources are the same function of the path for both. -/
structure Beside (enricher : Enricher) (files : FileTable) (lookup : String → Option SourceFile)
    (quiet listing : Pass) : Prop where
  common : listing.common = quiet.common
  sources : quiet.resources.LooksUp (enricher.sourcePaths files) lookup
  sameSources : listing.resources.LooksUp (enricher.sourcePaths files) lookup
  unlimited : quiet.sink.capacity = none
  sameUnlimited : listing.sink.capacity = none
  enricher : quiet.formatter.enricher = enricher

namespace Beside

variable {enricher : Enricher} {files : FileTable} {lookup : String → Option SourceFile}
  {quiet listing : Pass}

theorem sameEnricher (h : Beside enricher files lookup quiet listing) :
    listing.formatter.enricher = enricher := by
  have hsame : listing.formatter.enricher = quiet.formatter.enricher :=
    congrArg (fun common => common.1.enricher) h.common
  exact hsame.trans h.enricher

theorem common_promote (h : listing.common = quiet.common) (found : InlineSuppression) :
    (listing.promote found).common = (quiet.promote found).common := by
  have hstore : listing.formatter.store = quiet.formatter.store :=
    congrArg (fun common => common.1.store) h
  have hfs : listing.fs = quiet.fs := congrArg Prod.snd h
  cases hs : quiet.formatter.store with
  | none =>
    have hs' : listing.formatter.store = none := hstore.trans hs
    simpa only [Pass.promote, hs, hs'] using h
  | some store =>
    obtain ⟨log, hp⟩ := quiet.store_promote hs found
    obtain ⟨log', hp'⟩ := listing.store_promote (hstore.trans hs) found
    rw [hp, hp', hfs]
    let added := store.add quiet.fs found.hash found.fileName found.comment
    exact congrArg (fun common => ({ common.1 with store := some added.2.1 }, added.2.2)) h

/-- A finding fares the same in both reports. -/
theorem judge (h : Beside enricher files lookup quiet listing) (finding : Finding) :
    (listing.judge files finding).1 = (quiet.judge files finding).1 ∧
      (listing.judge files finding).2.common = (quiet.judge files finding).2.common := by
  have hpolicy : listing.formatter.policy = quiet.formatter.policy :=
    congrArg (fun common => common.1.policy) h.common
  have hstore : listing.formatter.store = quiet.formatter.store :=
    congrArg (fun common => common.1.store) h.common
  refine listing.judge_rel (R := fun listing quiet => listing.common = quiet.common) quiet files
    finding h.common (fun displayFile _ => ?_) (fun displayFile => ?_)
    (fun entry he => ⟨?_, h.common⟩) (fun entry => h.common)
    fun first second found h => common_promote h found
  · rw [Pass.excludes, Pass.excludes, hpolicy]
  · rw [Pass.suppresses, Pass.suppresses, hstore]
  · have hmem := enricher.resolve_mem_sourcePaths he
    have hfile := h.sources.file hmem
    have hfile' := h.sameSources.file hmem
    simp only [Pass.resources] at hfile hfile'
    simp only [Pass.marker?, inlineSuppression, h.enricher, h.sameEnricher, hfile, hfile']

/-- Writing a finding leaves the two passes side by side. -/
theorem finding (h : Beside enricher files lookup quiet listing) (finding : Finding) :
    ∃ quiet' listing', (Writing.finding files finding).run quiet = (.ok (), quiet') ∧
      (Writing.finding files finding).run listing = (.ok (), listing') ∧
      Beside enricher files lookup quiet' listing' := by
  obtain ⟨quiet', hrun, hsink, henricher, hlater⟩ :=
    Writing.later_finding files quiet h.unlimited finding
  obtain ⟨listing', hrun', hsink', -, hlater'⟩ :=
    Writing.later_finding files listing h.sameUnlimited finding
  rw [h.enricher] at hlater henricher
  rw [h.sameEnricher] at hlater'
  have hview (pass : Pass) :=
    Writing.view_finding Writing.unwritten_common (fun _ _ => rfl) files finding pass
  have hcommon := (hview listing).trans ((h.judge finding).2.trans (hview quiet).symm)
  rw [hrun, hrun'] at hcommon
  exact ⟨quiet', listing', hrun, hrun', hcommon, h.sources.of_later hlater,
    h.sameSources.of_later hlater', hsink, hsink', henricher⟩

/-- The same findings are shown in both reports. -/
theorem findings (h : Beside enricher files lookup quiet listing) (findings : List Finding) :
    listing.shown files findings = quiet.shown files findings ∧
      ∃ quiet' listing', (findings.forM (Writing.finding files)).run quiet = (.ok (), quiet') ∧
        (findings.forM (Writing.finding files)).run listing = (.ok (), listing') ∧
        Beside enricher files lookup quiet' listing' := by
  induction findings generalizing quiet listing with
  | nil => exact ⟨rfl, quiet, listing, rfl, rfl, h⟩
  | cons finding rest ih =>
    obtain ⟨quiet', listing', hrun, hrun', hnext⟩ := h.finding finding
    obtain ⟨hshown, hrest⟩ := ih hnext
    rw [Pass.shown_cons, Pass.shown_cons, (h.judge finding).1, Writing.run_forM_cons,
      Writing.run_forM_cons, hrun, hrun', hshown]
    exact ⟨rfl, hrest⟩

end Beside

namespace Formatter

/-- A report that lists steps only adds to one that does not. It has the same statistics and last
line, leaves the same store and the same files, and `shown` are the findings of both. -/
structure OnlyAddsSteps (formatter : Formatter) (fs : FileSystem) (reading : Reading)
    (lookup : String → Option SourceFile) (analyzed : Option String) (shown : List Finding) :
    Prop where
  shown_eq : ∀ printSteps,
    ({ formatter := formatter.withSteps printSteps, fs, sink := {} } : Pass).shown reading.files
      reading.findings = shown
  without : (formatter.withSteps false).Reports fs reading.files reading.findings analyzed
    (String.join (shown.map fun finding =>
        formatter.leadText lookup reading.files finding ++ "\n") ++
      Layout.summary (.ofNat shown.length) analyzed)
    (formatter.statsOf reading.files shown)
  listing : (formatter.withSteps true).Reports fs reading.files reading.findings analyzed
    (String.join (shown.map fun finding =>
        formatter.leadText lookup reading.files finding ++
          formatter.enricher.stepSection lookup reading.files finding ++ "\n") ++
      Layout.summary (.ofNat shown.length) analyzed)
    (formatter.statsOf reading.files shown)
  lists : ∀ finding ∈ shown, formatter.enricher.ListsEvents lookup reading.files finding
    (formatter.enricher.stepSection lookup reading.files finding)
  store_eq :
    ((formatter.withSteps true).writeReport fs {} reading.files reading.findings
        analyzed).2.formatter.store =
      ((formatter.withSteps false).writeReport fs {} reading.files reading.findings
        analyzed).2.formatter.store
  fs_eq :
    ((formatter.withSteps true).writeReport fs {} reading.files reading.findings analyzed).2.fs =
      ((formatter.withSteps false).writeReport fs {} reading.files reading.findings analyzed).2.fs

/-- What is shown of findings with all files in the table, up to the last line. -/
theorem reports_fullText {formatter : Formatter} {fs : FileSystem} {files : FileTable}
    {findings : List Finding} (hres : ∀ finding ∈ findings, finding.Resolves files)
    {lookup : String → Option SourceFile} {after : Pass} (analyzed : Option String)
    (hrun : (findings.forM (Writing.finding files)).run { formatter, fs, sink := {} } =
      (.ok (), after))
    (ha : after.formatter.sources.Agrees (formatter.enricher.sourcePaths files) lookup) :
    let shown := ({ formatter, fs, sink := {} } : Pass).shown files findings
    formatter.Reports fs files findings analyzed
      (String.join (shown.map (formatter.fullText lookup files)) ++
        Layout.summary (.ofNat shown.length) analyzed)
      (formatter.statsOf files shown) := by
  intro shown
  obtain ⟨_, hw⟩ := Writing.writes_all_of_agrees files { formatter, fs, sink := {} } rfl rfl
    findings analyzed (by rw [← List.forM_eq_forM, hrun]; exact ha)
  rw [← formatter.map_blockText_shown lookup hres]
  exact hw.outcome

/-- For the findings of a bundle, where sources are a function of the path, the report that lists
steps only adds to the other one. -/
theorem onlyAddsSteps_of_bundle (formatter : Formatter) (fs : FileSystem) {reading : Reading}
    (hr : reading.OfBundle) {lookup : String → Option SourceFile}
    (hl : Resources.LooksUp ⟨formatter.sources, formatter.store, fs⟩
      (formatter.enricher.sourcePaths reading.files) lookup) (analyzed : Option String) :
    formatter.OnlyAddsSteps fs reading lookup analyzed
      (({ formatter, fs, sink := {} } : Pass).shown reading.files reading.findings) := by
  let start (printSteps : Bool) : Pass :=
    { formatter := formatter.withSteps printSteps, fs, sink := {} }
  have hstart : Beside formatter.enricher reading.files lookup (start false) (start true) :=
    ⟨rfl, hl, hl, rfl, rfl, rfl⟩
  obtain ⟨hshown, quiet, listing, hrun, hrun', hend⟩ := hstart.findings reading.findings
  -- The formatter is one of the two itself.
  have hall (printSteps : Bool) : (start printSteps).shown reading.files reading.findings =
      ({ formatter, fs, sink := {} } : Pass).shown reading.files reading.findings := by
    change _ = (start formatter.printSteps).shown reading.files reading.findings
    cases printSteps <;> cases formatter.printSteps <;> simp only [hshown]
  have hcommon :
      ((Writing.all reading.files reading.findings analyzed).run (start true)).2.common =
        ((Writing.all reading.files reading.findings analyzed).run (start false)).2.common := by
    rw [Writing.view_all Writing.unwritten_common, Writing.view_all Writing.unwritten_common, hrun,
      hrun']
    exact hend.common
  have hwithout := reports_fullText hr.resolves analyzed hrun hend.sources.agrees
  have hlisting := reports_fullText hr.resolves analyzed hrun' hend.sameSources.agrees
  rw [hall, fullText_without] at hwithout
  rw [hall, fullText_listing] at hlisting
  refine ⟨hall, hwithout, hlisting, fun finding hf => ?_, ?_, congrArg Prod.snd hcommon⟩
  · have hmem := (Pass.shown_sublist reading.files _ reading.findings).subset hf
    exact formatter.enricher.listsEvents_stepSection lookup (hr.resolves finding hmem)
  · exact congrArg (fun common => common.1.store) hcommon

/-- The sources of the bundle are looked up alike in any order, and none of them is the file of the
store. -/
theorem looksUp_fourFates :
    Resources.LooksUp ⟨{}, (storing "s").store, filesWith fourFates⟩ ["a.c", "b.c", "c.h"]
      fun path => (SourceCache.empty.file (filesWith fourFates) path).1 := by
  have hresolve : ∀ path ∈ ["a.c", "b.c", "c.h", "s"],
      (filesWith fourFates).resolve path = .ok ⟨[path], false⟩ := by
    simp only [List.forall_mem_cons, List.not_mem_nil, false_implies, implies_true, and_true]
    exact ⟨rfl, rfl, rfl, rfl⟩
  have hsource : ∀ source ∈ ["a.c", "b.c", "c.h"],
      source ∈ ["a.c", "b.c", "c.h", "s"] ∧ source ≠ "s" := by decide
  have hsame : ∀ source ∈ ["a.c", "b.c", "c.h"], ∀ other ∈ ["a.c", "b.c", "c.h"],
      FilePath.components source = FilePath.components other → source = other := by decide
  refine Resources.looksUp_of_apart ?_ (SourceCache.looksUp_iff.2 fun source hs other ho h => by
    rw [hsame source hs other ho h])
  rintro _ ⟨⟩ _ ⟨⟩ source hs
  obtain ⟨hm, hne⟩ := hsource source hs
  exact apart_filesWith hresolve hm (by decide) hne

/-- The third of the four findings is taken into the store in both reports, and the others are
shown, the last with a step. -/
theorem onlyAddsSteps_fourFates :
    let reading := (unchanging.enricher.readPath (filesWith fourFates) "b.json" {}).1
    let shown := ({ formatter := storing "s", fs := filesWith fourFates, sink := {} } : Pass).shown
      reading.files reading.findings
    reading.OfBundle ∧
      Resources.LooksUp ⟨(storing "s").sources, (storing "s").store, filesWith fourFates⟩
        ((storing "s").enricher.sourcePaths reading.files)
        (fun path => (SourceCache.empty.file (filesWith fourFates) path).1) ∧
      shown.map (fun finding => (finding.identityHash, finding.locatedEvents.length)) =
        [("g", 0), ("h", 0), ("j", 1)] ∧
      (storing "s").OnlyAddsSteps (filesWith fourFates) reading
        (fun path => (SourceCache.empty.file (filesWith fourFates) path).1) none shown := by
  intro reading shown
  have h : unchanging.enricher.readPath (filesWith fourFates) "b.json" {} = _ :=
    readPath_filesWith rfl parse_pretty_fourFates rfl {}
  have hbundle : reading.OfBundle := .ofFile _ _ _ _ (by rw [h]; decide +kernel)
  have hfiles : reading.files = ⟨["a.c", "b.c", "c.h"]⟩ := by
    simp only [reading, h]
    decide +kernel
  have hl : Resources.LooksUp ⟨(storing "s").sources, (storing "s").store, filesWith fourFates⟩
      ((storing "s").enricher.sourcePaths reading.files)
      (fun path => (SourceCache.empty.file (filesWith fourFates) path).1) := by
    rw [hfiles]
    exact looksUp_fourFates
  refine ⟨hbundle, hl, ?_, onlyAddsSteps_of_bundle (storing "s") _ hbundle hl none⟩
  simp only [shown, reading, h]
  decide +kernel

end Formatter

end Findings
