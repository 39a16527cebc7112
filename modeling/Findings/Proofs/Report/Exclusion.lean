import Findings.Config.SkipList
import Findings.Proofs.Report.Comparison
import Findings.Proofs.Report.Plain

/-!
# Leaving findings out before and while a report is written

A policy may be applied to a bundle before it is read, or to its findings while a report of them is
written. The former judges a finding by the file of its own location, the latter by the file that it
is displayed under. Where the policy makes no difference between the two, both give the same report.

* `exists_matches_start`: the two reports begin alike.
* `reportBundle_filterFile`: the two reports are the same.
* `not_reportsFiltered`: they are not without each of the conditions.
-/

namespace Findings

namespace Formatter

variable (formatter : Formatter) (policy : SkipPolicy) (fs : FileSystem) (sink : Sink)
  (path : String) (analyzed : Option String)

/-- What a report reads from its bundle. -/
def reading : Reading :=
  (formatter.enricher.readPath fs path formatter.sources).1

/-- A report of a bundle that cannot be read. -/
theorem reportBundle_of_failure {e : BundleError}
    (h : (formatter.reading fs path).failure = some e) :
    (formatter.reportBundle fs sink path analyzed).1 = .error (.invalidBundle path e) ∧
      (formatter.reportBundle fs sink path analyzed).2.sink = sink := by
  rw [reading] at h
  simp only [reportBundle, h, and_self]

/-- The pass with which the report of a bundle begins after the bundle was read. -/
def start (formatter : Formatter) (fs : FileSystem) (sink : Sink) (path : String) : Pass where
  formatter :=
    { formatter with
      sources := (formatter.enricher.readPath fs path formatter.sources).2.2.1 }
  fs := (formatter.enricher.readPath fs path formatter.sources).2.2.2
  sink

/-- A report of a bundle that can be read is one of its findings. -/
theorem reportBundle_of_failure_eq_none (excluded : Option SkipPolicy)
    (h : (formatter.reading fs path).failure = none) :
    let reporting := { formatter with policy := excluded }
    let written := (Writing.all (formatter.reading fs path).files
      (formatter.reading fs path).findings analyzed).run (reporting.start fs sink path)
    (reporting.reportBundle fs sink path analyzed).1 = written.1 ∧
      (reporting.reportBundle fs sink path analyzed).2.sink = written.2.sink := by
  rw [reading] at h
  simp only [reportBundle, h]
  exact ⟨rfl, rfl⟩

/-- The bundle, the backing file of the store and the sources are different files, and source paths
that share an entry of the cache lead to the same source. -/
structure KeepsApart (files : FileTable) : Prop where
  bundle : ∀ source ∈ formatter.enricher.sourcePaths files, fs.Apart source path
  store : ∀ store ∈ formatter.store, ∀ file ∈ store.writableFile?,
    fs.Apart file path ∧ ∀ source ∈ formatter.enricher.sourcePaths files, fs.Apart source file
  sources : ∀ source ∈ formatter.enricher.sourcePaths files,
    ∀ other ∈ formatter.enricher.sourcePaths files,
      FilePath.components source = FilePath.components other →
        (formatter.sources.file fs source).1 = (formatter.sources.file fs other).1

/-- What taking the findings of excluded files out of the bundle needs: a text that is no longer the
same can be written, and a hash that has to be derived is derived from it as it was before. -/
structure FiltersInPlace : Prop where
  written : ∀ content, fs.readText path = .ok content →
    (filterText policy content).1 ≠ content → (filterFile policy fs path).1 = .ok ()
  hashes : ∀ content, fs.readText path = .ok content → formatter.enricher.HashesReread content

variable {formatter policy fs path}

/-- What is read after the findings of excluded files were taken out. -/
theorem reading_filterFile (h : (formatter.reading fs path).failure = none)
    (ha : formatter.KeepsApart fs path (formatter.reading fs path).files)
    (hp : formatter.FiltersInPlace policy fs path) :
    let filtered := formatter.reading (filterFile policy fs path).2.2 path
    filtered.failure = none ∧ filtered.files = (formatter.reading fs path).files ∧
      filtered.findings.map Finding.plain =
        ((formatter.reading fs path).findings.filter fun finding =>
          !policy.excludes (formatter.reading fs path).files finding.primaryFile).map
            Finding.plain := by
  obtain ⟨hfailure, hfiles, hfindings, -⟩ := formatter.enricher.readPath_filterFile hp.written h
    (SourceCache.looksUp_iff.2 ha.sources) ha.bundle hp.hashes
  exact ⟨hfailure, hfiles, hfindings⟩

/-- After the bundle was read, whole or filtered, the two reports begin alike. -/
theorem exists_matches_start
    (h : (formatter.reading fs path).failure = none)
    (ha : formatter.KeepsApart fs path (formatter.reading fs path).files)
    (hp : formatter.FiltersInPlace policy fs path) :
    ∃ c : Comparison,
      c.files = (formatter.reading fs path).files ∧
        c.policy = policy ∧
        c.Matches ({ formatter with policy := some policy }.start fs sink path)
          ({ formatter with policy := none }.start (filterFile policy fs path).2.2 sink path) := by
  obtain ⟨-, -, -, hsources, hsources', target, ht, hfs, hagree⟩ :=
    formatter.enricher.readPath_filterFile hp.written h (SourceCache.looksUp_iff.2 ha.sources)
      ha.bundle hp.hashes
  let c : Comparison := {
    policy
    enricher := formatter.enricher
    files := (formatter.reading fs path).files
    lookup := fun source => (formatter.sources.file fs source).1
    place := target.place }
  have hbacked (store) (hs : store ∈ formatter.store) : c.BackedElsewhere fs store :=
    fun file hw => ⟨(ha.store store hs file hw).1 target ht, (ha.store store hs file hw).2⟩
  exact ⟨c, rfl, rfl, {
    policy := rfl
    noPolicy := rfl
    severities := rfl
    printSteps := rfl
    store := rfl
    enricher := rfl
    sameEnricher := rfl
    sink := rfl
    stats := rfl
    agree := hagree
    sources := hsources
    sameSources := hsources'
    backing := fun store hs => (hbacked store hs).of_agree hfs }⟩

/-- Excluding files while a report of a bundle is written gives the same result and the same text as
taking the findings in these files out of the bundle first. -/
def ReportsFiltered (formatter : Formatter) (policy : SkipPolicy) (fs : FileSystem) (sink : Sink)
    (path : String) (analyzed : Option String) : Prop :=
  let skipping := { formatter with policy := some policy }.reportBundle fs sink path analyzed
  let plain := { formatter with policy := none }.reportBundle (filterFile policy fs path).2.2 sink
    path analyzed
  skipping.1 = plain.1 ∧ skipping.2.sink = plain.2.sink

/-- Both ways of excluding files give the same report, if the policy makes no difference between the
file of a finding's own location and the one it is displayed under. -/
theorem reportBundle_filterFile
    (hj : policy.JudgesAlike (formatter.reading fs path).files (formatter.reading fs path).findings)
    (ha : formatter.KeepsApart fs path (formatter.reading fs path).files)
    (hp : formatter.FiltersInPlace policy fs path) (sink : Sink) (analyzed : Option String) :
    formatter.ReportsFiltered policy fs sink path analyzed := by
  cases h : (formatter.reading fs path).failure with
  | some e =>
    have hplain := formatter.enricher.readPath_filterFile_of_failure hp.written h
    obtain ⟨hresult, hsink⟩ := reportBundle_of_failure { formatter with policy := some policy } fs
      sink path analyzed h
    obtain ⟨hresult', hsink'⟩ := reportBundle_of_failure { formatter with policy := none }
      (filterFile policy fs path).2.2 sink path analyzed hplain
    exact ⟨hresult.trans hresult'.symm, hsink.trans hsink'.symm⟩
  | none =>
    obtain ⟨hfailure, hfiles, hfindings⟩ := reading_filterFile h ha hp
    obtain ⟨hresult, hsink⟩ :=
      formatter.reportBundle_of_failure_eq_none fs sink path analyzed (some policy) h
    obtain ⟨hresult', hsink'⟩ := formatter.reportBundle_of_failure_eq_none
      (filterFile policy fs path).2.2 sink path analyzed none hfailure
    -- What is only kept to be written back is not reported.
    rw [hfiles, Writing.all_congr _ hfindings] at hresult' hsink'
    obtain ⟨c, hc, rfl, hmatches⟩ := exists_matches_start sink h ha hp
    rw [← hc] at hresult hsink hresult' hsink' hj
    obtain ⟨hall, hafter⟩ := hmatches.all hj analyzed
    exact ⟨hresult.trans (hall.trans hresult'.symm), hsink.trans (hafter.sink.trans hsink'.symm)⟩

/-! ## Where the two reports differ -/

/-- A record with a location in a file. -/
def recordIn (file : Nat) (keys : List (String × Json)) : Json :=
  .object (("location", .object [("line", .ofNat 1), ("col", .ofNat 1), ("file", .ofNat file)])
    :: keys)

/-- The key of a path whose steps are of these kinds and in these files. -/
def pathIn (steps : List (String × Nat)) : String × Json :=
  ("path", .array (steps.map fun step => recordIn step.2 [("kind", .string step.1)]))

def bundleOf (files : List String) (diagnostics : List Json) : Json :=
  .object [("files", .array (files.map .string)), ("diagnostics", .array diagnostics)]

/-- The last event of the first finding is not in the file of its own location. -/
def eventElsewhere : Json :=
  bundleOf ["a.c", "c.c", "c.h"] [
    recordIn 0 [(Diagnostic.hashKey, .string "h"), pathIn [("event", 1)]],
    recordIn 2 [(Diagnostic.hashKey, .string "i")]]

/-- Two findings in one file, by different paths. Only the second has a hash. -/
def twoSpellings : Json :=
  bundleOf ["b.c/", "b.c"] [
    recordIn 0 [],
    recordIn 1 [(Diagnostic.hashKey, .string "h")]]

/-- A finding in the first file without a hash, one in the second file, and one that is displayed
under the second file and shown in the first. -/
def shownElsewhere : Json :=
  bundleOf ["a.c", "b.c"] [
    recordIn 0 [],
    recordIn 1 [(Diagnostic.hashKey, .string "g")],
    recordIn 1 [(Diagnostic.hashKey, .string "h"), pathIn [("event", 1), ("control", 0)]]]

/-- A number of which the text is read as the next larger one, twice in a row. -/
def drifting (times : Nat) : Binary64 :=
  ⟨false, ⟨4503599627370528 + times, 900⟩⟩

/-- A record without a hash, whose only step has a number as an extra member. -/
def weighing (x : Binary64) : Json :=
  recordIn 0 [("path", .array [
    recordIn 0 [("kind", .string "event"), ("weight", .number (.float x))]])]

/-- Such a finding, and one in a header. -/
def weighed (x : Binary64) : Json :=
  bundleOf ["a.c", "c.h"] [weighing x, recordIn 1 [(Diagnostic.hashKey, .string "i")]]

/-- A directory with an empty file, and one with a marker whose comment is a marker. -/
def sourceFiles : FileSystem :=
  ((FileSystem.empty []).put ["a.c"] (.file "".toUTF8)).put ["b.c"]
    (.file "int b; // quell_suppress [all] // quell_suppress [all]\n".toUTF8)

/-- The same directory with a bundle. -/
def filesWith (bundle : Json) : FileSystem :=
  sourceFiles.put ["b.json"] (.file bundle.pretty.toUTF8)

theorem node?_sourceFiles : sourceFiles.node? ["b.json"] ≠ some .directory := by
  simp [sourceFiles, FileSystem.empty, FileSystem.node?, FileSystem.put, Entries.set, Entries.get?]

theorem readText_filesWith (bundle : Json) :
    (filesWith bundle).readText "b.json" = .ok bundle.pretty := by
  have hr : sourceFiles.resolve "b.json" = .ok ⟨["b.json"], false⟩ := rfl
  exact FileSystem.readText_put hr rfl node?_sourceFiles bundle.pretty

/-- What the directory holds after its bundle was filtered. -/
theorem filterFile_filesWith {policy : SkipPolicy} {bundle read filtered : Json}
    (hp : Json.parse bundle.pretty = .ok read)
    (hf : filterDocument policy read.collapse = .ok (some filtered)) :
    (filterFile policy (filesWith bundle) "b.json").2.2 = filesWith filtered := by
  obtain ⟨place, ht, he⟩ := FileSystem.Accepts.rewrite_of_readText
    (FileSystem.accepts_of_device rfl "b.json") (readText_filesWith bundle) false
    (filterText policy)
  have hr : (filesWith bundle).resolve "b.json" = .ok ⟨["b.json"], false⟩ := rfl
  obtain rfl : place = ["b.json"] :=
    congrArg FileSystem.Target.place (Except.ok.inj (ht.symm.trans hr))
  have htext : (filterText policy bundle.pretty).1 = filtered.pretty := by
    simp only [filterText, hp, hf]
  rw [Enricher.filterFile_fs, he, htext]
  simp only [filesWith, FileSystem.put, Entries.set_set]

/-- A bundle that is not replaced is read as its text. -/
theorem readPath_of_parse {enricher : Enricher} {fs : FileSystem} {content : String} {value : Json}
    {members : List (String × Json)} (hm : enricher.mayReplace = false)
    (ht : fs.readText "b.json" = .ok content) (hp : Json.parse content = .ok value)
    (hc : value.collapse = .object members) (sources : SourceCache) :
    enricher.readPath fs "b.json" sources =
      ((enricher.readMembers fs members "b.json" sources).reading,
        (enricher.readMembers fs members "b.json" sources).log,
        (enricher.readMembers fs members "b.json" sources).sources, fs) := by
  simp only [Enricher.readPath, ht, Enricher.readDocument_of_parse enricher _ _ _ hp hc, hm,
    Bool.and_false, Bool.false_eq_true, if_false]
  split <;> rfl

theorem readPath_filesWith {enricher : Enricher} {bundle read : Json}
    {members : List (String × Json)} (hm : enricher.mayReplace = false)
    (hp : Json.parse bundle.pretty = .ok read) (hc : read.collapse = .object members)
    (sources : SourceCache) :
    enricher.readPath (filesWith bundle) "b.json" sources =
      ((enricher.readMembers (filesWith bundle) members "b.json" sources).reading,
        (enricher.readMembers (filesWith bundle) members "b.json" sources).log,
        (enricher.readMembers (filesWith bundle) members "b.json" sources).sources,
        filesWith bundle) :=
  readPath_of_parse hm (readText_filesWith bundle) hp hc sources

/-- The number of findings in a report. -/
def count (formatter : Formatter) (fs : FileSystem) : Option UInt64 :=
  (formatter.reportBundle fs {} "b.json" none).1.toOption.map Stats.reportCount

theorem not_reportsFiltered_of_count {formatter : Formatter} {policy : SkipPolicy}
    {fs : FileSystem} {shown shownPlain : Option UInt64}
    (h : { formatter with policy := some policy }.count fs = shown)
    (hplain : { formatter with policy := none }.count (filterFile policy fs "b.json").2.2 =
      shownPlain) (hne : shown ≠ shownPlain) :
    ¬ formatter.ReportsFiltered policy fs {} "b.json" none := by
  rintro ⟨hresult, -⟩
  exact hne (h.symm.trans (congrArg (fun result => result.toOption.map Stats.reportCount) hresult
    |>.trans hplain))

/-- A formatter that leaves bundles as they are. -/
def unchanging : Formatter where
  enricher := { hasher := fun _ _ _ => "d", mayReplace := false }

/-- The same with a store that is written to a file. -/
def storing (file : String) : Formatter :=
  { unchanging with store := some { backing := some file, writable := true } }

/-- The list that excludes one path. -/
def excluding (path : String) : SkipList :=
  ⟨[{ glob := ⟨path.toList.map .char⟩, keeps := false }]⟩

/-- The number that the first step of a path has as an extra member. -/
def weight? (path : List Step) : Option Binary64 :=
  match path.head?.bind fun step => Entries.get? "weight" step.extra with
  | some (.number (.float x)) => some x
  | _ => none

/-- A formatter whose hasher knows one number. The hash that it gives for this number is in the
store. -/
def knowing (x : Binary64) : Formatter where
  enricher :=
    { hasher := fun path _ _ => if weight? path = some x then "h" else "d", mayReplace := false }
  store := some { backing := none, writable := false, records := [⟨"h", "a.c", ""⟩] }

theorem parse_pretty_eventElsewhere : Json.parse eventElsewhere.pretty = .ok eventElsewhere :=
  Json.parse_pretty_of_numbers_eq [1, 1, 0, 1, 1, 1, 1, 1, 2] (by decide) rfl (by decide)

theorem parse_pretty_twoSpellings : Json.parse twoSpellings.pretty = .ok twoSpellings :=
  Json.parse_pretty_of_numbers_eq [1, 1, 0, 1, 1, 1] (by decide) rfl (by decide)

theorem parse_pretty_shownElsewhere : Json.parse shownElsewhere.pretty = .ok shownElsewhere :=
  Json.parse_pretty_of_numbers_eq [1, 1, 0, 1, 1, 1, 1, 1, 1, 1, 1, 1, 1, 1, 0] (by decide) rfl
    (by decide)

/-- The finding is excluded by its own file only before, and by that of its event only while the
report is written. -/
theorem not_reportsFiltered_eventElsewhere :
    ¬ unchanging.ReportsFiltered (excluding "a.c").policy (filesWith eventElsewhere) {} "b.json"
      none := by
  have hf : filterDocument (excluding "a.c").policy eventElsewhere.collapse =
      .ok (some (bundleOf ["a.c", "c.c", "c.h"]
        [recordIn 2 [(Diagnostic.hashKey, .string "i")]])) := rfl
  have hskipping : { unchanging with policy := some (excluding "a.c").policy }.count
      (filesWith eventElsewhere) = some 2 := by
    rw [count, reportBundle, readPath_filesWith rfl parse_pretty_eventElsewhere rfl]
    decide +kernel
  have hplain : { unchanging with policy := none }.count
      (filterFile (excluding "a.c").policy (filesWith eventElsewhere) "b.json").2.2 = some 1 := by
    rw [filterFile_filesWith parse_pretty_eventElsewhere hf, count, reportBundle,
      readPath_filesWith rfl (Json.parse_pretty_of_numbers_eq [1, 1, 2] (by decide) rfl (by decide))
        rfl]
    decide +kernel
  exact not_reportsFiltered_of_count hskipping hplain (by decide)

/-- The cache keeps that the source is missing by the first path, unless the finding there is taken
out before. -/
theorem not_reportsFiltered_twoSpellings :
    ¬ unchanging.ReportsFiltered (excluding "b.c/").policy (filesWith twoSpellings) {} "b.json"
      none := by
  have hf : filterDocument (excluding "b.c/").policy twoSpellings.collapse =
      .ok (some (bundleOf ["b.c/", "b.c"] [recordIn 1 [(Diagnostic.hashKey, .string "h")]])) := rfl
  have hskipping : { unchanging with policy := some (excluding "b.c/").policy }.count
      (filesWith twoSpellings) = some 1 := by
    rw [count, reportBundle, readPath_filesWith rfl parse_pretty_twoSpellings rfl]
    decide +kernel
  have hplain : { unchanging with policy := none }.count
      (filterFile (excluding "b.c/").policy (filesWith twoSpellings) "b.json").2.2 = some 0 := by
    rw [filterFile_filesWith parse_pretty_twoSpellings hf, count, reportBundle,
      readPath_filesWith rfl (Json.parse_pretty_of_numbers_eq [1, 1, 1] (by decide) rfl (by decide))
        rfl]
    decide +kernel
  exact not_reportsFiltered_of_count hskipping hplain (by decide)

/-- The store writes the marker to the source, which the cache has already where a finding in it was
read. -/
theorem not_reportsFiltered_shownElsewhere :
    ¬ (storing "a.c").ReportsFiltered (excluding "a.c").policy (filesWith shownElsewhere) {}
      "b.json" none := by
  have hf : filterDocument (excluding "a.c").policy shownElsewhere.collapse =
      .ok (some (bundleOf ["a.c", "b.c"] [
        recordIn 1 [(Diagnostic.hashKey, .string "g")],
        recordIn 1 [(Diagnostic.hashKey, .string "h"),
          pathIn [("event", 1), ("control", 0)]]])) := rfl
  have hskipping : { storing "a.c" with policy := some (excluding "a.c").policy }.count
      (filesWith shownElsewhere) = some 1 := by
    rw [count, reportBundle, readPath_filesWith rfl parse_pretty_shownElsewhere rfl]
    decide +kernel
  have hplain : { storing "a.c" with policy := none }.count
      (filterFile (excluding "a.c").policy (filesWith shownElsewhere) "b.json").2.2 = some 0 := by
    rw [filterFile_filesWith parse_pretty_shownElsewhere hf, count, reportBundle,
      readPath_filesWith rfl (Json.parse_pretty_of_numbers_eq
        [1, 1, 1, 1, 1, 1, 1, 1, 1, 1, 1, 0] (by decide) rfl (by decide)) rfl]
    decide +kernel
  exact not_reportsFiltered_of_count hskipping hplain (by decide)

/-- The directory of the first bundle, on a device that does not let the bundle be written. -/
def readOnlyFiles : FileSystem :=
  (filesWith eventElsewhere).refuse ["b.json"] .readOnly

theorem readText_readOnlyFiles : readOnlyFiles.readText "b.json" = .ok eventElsewhere.pretty := by
  have hr : (sourceFiles.refuse ["b.json"] .readOnly).resolve "b.json" = .ok ⟨["b.json"], false⟩ :=
    rfl
  refine FileSystem.readText_put hr rfl ?_ eventElsewhere.pretty
  exact node?_sourceFiles

/-- What is excluded stays in the bundle if that cannot be written. -/
theorem not_reportsFiltered_readOnlyFiles :
    ¬ unchanging.ReportsFiltered (excluding "c.h").policy readOnlyFiles {} "b.json" none := by
  have hrefuses : readOnlyFiles.refusal? ["b.json"] = some .readOnly := rfl
  have hfs : (filterFile (excluding "c.h").policy readOnlyFiles "b.json").2.2 = readOnlyFiles := by
    rw [Enricher.filterFile_fs,
      FileSystem.rewrite_of_refusal readText_readOnlyFiles rfl hrefuses]
  have hskipping : { unchanging with policy := some (excluding "c.h").policy }.count
      readOnlyFiles = some 1 := by
    rw [count, reportBundle,
      readPath_of_parse rfl readText_readOnlyFiles parse_pretty_eventElsewhere rfl]
    decide +kernel
  have hplain : { unchanging with policy := none }.count
      (filterFile (excluding "c.h").policy readOnlyFiles "b.json").2.2 = some 2 := by
    rw [hfs, count, reportBundle,
      readPath_of_parse rfl readText_readOnlyFiles parse_pretty_eventElsewhere rfl]
    decide +kernel
  exact not_reportsFiltered_of_count hskipping hplain (by decide)

theorem text_drifting :
    Number.text (.float (drifting 0)) = "1.8807909613156734e-37".toList ∧
      Number.text (.float (drifting 1)) = "1.880790961315674e-37".toList := by
  decide +kernel

theorem rereadFloat_drifting :
    Json.rereadFloat (drifting 0) = drifting 1 ∧ Json.rereadFloat (drifting 1) = drifting 2 :=
  ⟨Json.rereadFloat_of_text text_drifting.1 (by decide +kernel),
    Json.rereadFloat_of_text text_drifting.2 (by decide +kernel)⟩

/-- The hash of the first finding is in the store as long as the bundle is not printed anew. -/
theorem not_reportsFiltered_weighed :
    ¬ (knowing (drifting 1)).ReportsFiltered (excluding "c.h").policy
      (filesWith (weighed (drifting 0))) {} "b.json" none := by
  obtain ⟨honce, hagain⟩ := rereadFloat_drifting
  have hp : Json.parse (weighed (drifting 0)).pretty = .ok (weighed (drifting 1)) := by
    rw [Json.parse_pretty_of_inRange (by decide) (by decide), ← honce]
    rfl
  have hp' : Json.parse (bundleOf ["a.c", "c.h"] [weighing (drifting 1)]).pretty =
      .ok (bundleOf ["a.c", "c.h"] [weighing (drifting 2)]) := by
    rw [Json.parse_pretty_of_inRange (by decide) (by decide), ← hagain]
    rfl
  have hf : filterDocument (excluding "c.h").policy (weighed (drifting 1)).collapse =
      .ok (some (bundleOf ["a.c", "c.h"] [weighing (drifting 1)])) := rfl
  have hskipping : { knowing (drifting 1) with policy := some (excluding "c.h").policy }.count
      (filesWith (weighed (drifting 0))) = some 0 := by
    rw [count, reportBundle, readPath_filesWith rfl hp rfl]
    decide +kernel
  have hplain : { knowing (drifting 1) with policy := none }.count
      (filterFile (excluding "c.h").policy (filesWith (weighed (drifting 0))) "b.json").2.2 =
        some 1 := by
    rw [filterFile_filesWith hp hf, count, reportBundle, readPath_filesWith rfl hp' rfl]
    decide +kernel
  exact not_reportsFiltered_of_count hskipping hplain (by decide)

/-- With a list that excludes one file the two reports may differ: where the last event of a finding
is in another file, where two paths share an entry of the cache, where the store is kept in a
source, where the bundle cannot be written, and where a hash is derived from a number that is not
read back. -/
theorem not_reportsFiltered :
    (SkipList.parse ["-a.c"] = .ok (excluding "a.c") ∧
        SkipList.parse ["-b.c/"] = .ok (excluding "b.c/") ∧
        SkipList.parse ["-c.h"] = .ok (excluding "c.h")) ∧
      ¬ unchanging.ReportsFiltered (excluding "a.c").policy (filesWith eventElsewhere) {} "b.json"
        none ∧
      ¬ unchanging.ReportsFiltered (excluding "b.c/").policy (filesWith twoSpellings) {} "b.json"
        none ∧
      ¬ (storing "a.c").ReportsFiltered (excluding "a.c").policy (filesWith shownElsewhere) {}
        "b.json" none ∧
      ¬ unchanging.ReportsFiltered (excluding "c.h").policy readOnlyFiles {} "b.json" none ∧
      ¬ (knowing (drifting 1)).ReportsFiltered (excluding "c.h").policy
        (filesWith (weighed (drifting 0))) {} "b.json" none :=
  ⟨⟨rfl, rfl, rfl⟩, not_reportsFiltered_eventElsewhere, not_reportsFiltered_twoSpellings,
    not_reportsFiltered_shownElsewhere, not_reportsFiltered_readOnlyFiles,
    not_reportsFiltered_weighed⟩

/-- Paths that lead to different names in the directory are kept apart. -/
theorem apart_filesWith {bundle : Json} {paths : List String}
    (hresolve : ∀ path ∈ paths, (filesWith bundle).resolve path = .ok ⟨[path], false⟩)
    {path other : String} (hp : path ∈ paths) (ho : other ∈ paths) (hne : path ≠ other) :
    (filesWith bundle).Apart path other := by
  intro target ht target' ht' he
  obtain rfl := Except.ok.inj ((hresolve other ho).symm.trans ht)
  obtain rfl := Except.ok.inj ((hresolve path hp).symm.trans ht')
  exact hne (List.singleton_inj.1 he)

/-- A formatter with a store and with the hasher that is used unless another one is given. -/
def hashing : Formatter :=
  { storing "s" with enricher := { mayReplace := false } }

theorem keepsApart_eventElsewhere :
    hashing.KeepsApart (filesWith eventElsewhere) "b.json" ⟨["a.c", "c.c", "c.h"]⟩ := by
  have hresolve : ∀ path ∈ ["a.c", "c.c", "c.h", "b.json", "s"],
      (filesWith eventElsewhere).resolve path = .ok ⟨[path], false⟩ := by
    simp only [List.forall_mem_cons, List.not_mem_nil, false_implies, implies_true, and_true]
    exact ⟨rfl, rfl, rfl, rfl, rfl⟩
  have hsource : ∀ source ∈ ["a.c", "c.c", "c.h"],
      source ∈ ["a.c", "c.c", "c.h", "b.json", "s"] ∧ source ≠ "b.json" ∧ source ≠ "s" := by decide
  have hsame : ∀ source ∈ ["a.c", "c.c", "c.h"], ∀ other ∈ ["a.c", "c.c", "c.h"],
      FilePath.components source = FilePath.components other → source = other := by decide
  refine ⟨fun source hs => ?_, ?_, fun source hs other ho h => by rw [hsame source hs other ho h]⟩
  · obtain ⟨hm, hne, -⟩ := hsource source hs
    exact apart_filesWith hresolve hm (by decide) hne
  · rintro _ ⟨⟩ _ ⟨⟩
    refine ⟨apart_filesWith hresolve (by decide) (by decide) (by decide), fun source hs => ?_⟩
    obtain ⟨hm, -, hne⟩ := hsource source hs
    exact apart_filesWith hresolve hm (by decide) hne

theorem reading_eventElsewhere :
    hashing.reading (filesWith eventElsewhere) "b.json" =
      (hashing.enricher.readMembers (filesWith eventElsewhere)
        [("files", .array [.string "a.c", .string "c.c", .string "c.h"]),
          ("diagnostics", .array [
            recordIn 0 [(Diagnostic.hashKey, .string "h"), pathIn [("event", 1)]],
            recordIn 2 [(Diagnostic.hashKey, .string "i")]])] "b.json" {}).reading := by
  rw [reading, readPath_filesWith rfl parse_pretty_eventElsewhere rfl]
  rfl

/-- The list excludes the file of the last finding, under which it is displayed too. -/
theorem reportsFiltered_eventElsewhere :
    let formatter := hashing
    let policy := (excluding "c.h").policy
    let fs := filesWith eventElsewhere
    policy.JudgesAlike (formatter.reading fs "b.json").files
        (formatter.reading fs "b.json").findings ∧
      formatter.KeepsApart fs "b.json" (formatter.reading fs "b.json").files ∧
      formatter.FiltersInPlace policy fs "b.json" ∧
      formatter.ReportsFiltered policy fs {} "b.json" none := by
  intro formatter policy fs
  have hj : policy.JudgesAlike (formatter.reading fs "b.json").files
      (formatter.reading fs "b.json").findings := by
    rw [reading_eventElsewhere, SkipPolicy.JudgesAlike]
    decide +kernel
  have ha : formatter.KeepsApart fs "b.json" (formatter.reading fs "b.json").files := by
    rw [reading_eventElsewhere]
    exact keepsApart_eventElsewhere
  have hp : formatter.FiltersInPlace policy fs "b.json" := {
    written := fun content ht _ => by
      obtain ⟨place, -, he⟩ := FileSystem.Accepts.rewrite_of_readText
        (FileSystem.accepts_of_device rfl "b.json") ht false (filterText policy)
      rw [filterFile, he]
    hashes := fun content _ =>
      formatter.enricher.hashesReread_of_plain Identity.pathShape_plain content }
  exact ⟨hj, ha, hp, reportBundle_filterFile hj ha hp {} none⟩

end Formatter

end Findings
