import Findings.Proofs.Bundle.Filtering
import Findings.Proofs.Suppression.Marker
import Findings.Report.Formatter

/-!
# What becomes of a finding

Judging a finding changes the sources that were looked up and the log, and nothing else, unless a
marker applies to it: then the suppression that the marker asks for is added to the store.

* `Judged`: what each verdict means, in the order in which its reasons are looked for. `judged`: a
  finding is judged so.
* `Pass.judge_of_outsideTable` to `Pass.judge_of_shown`: the pass that each verdict leaves.
* `Pass.judge_cases`: the two cases above, with what leads to a marker.
* `Pass.judge_rel`: two passes side by side.
* `Pass.store_promote`: what adding the suppression changes.
-/

namespace Findings

/-- The suppression of a finding names the file of the source that its marker stands in. -/
theorem inlineSuppression_eq_some {sources : SourceCache} {fs : FileSystem} {path : String}
    {line : Nat} {hash checker : String} {found : InlineSuppression}
    (h : (inlineSuppression sources fs path line hash checker).1 = some found) :
    found.hash = hash ∧ found.fileName = FilePath.basename path := by
  obtain ⟨source, -, marker, -, rfl⟩ := inlineSuppression_eq_some_iff.1 h
  exact ⟨rfl, rfl⟩

/-- The source of an entry of the file table is one that a report may look up. -/
theorem Enricher.resolve_mem_sourcePaths (enricher : Enricher) {files : FileTable}
    {index : FileIndex} {entry : String} (he : files.get? index = some entry) :
    enricher.resolve entry ∈ enricher.sourcePaths files :=
  List.mem_map_of_mem (FileTable.mem_paths_of_get? he)

/-! ## Verdicts -/

namespace Pass

variable (pass : Pass)

/-- Whether the policy excludes a file. -/
def excludes (file : String) : Bool :=
  pass.formatter.policy.any (· file)

/-- Whether the store covers a finding in a file. -/
def suppresses (finding : Finding) (file : String) : Bool :=
  pass.formatter.store.any (·.isSuppressed finding.identityHash file)

/-- The suppression of a finding that the source of a file table entry asks for. -/
def marker? (finding : Finding) (entry : String) : Option InlineSuppression :=
  (inlineSuppression pass.formatter.sources pass.fs (pass.formatter.enricher.resolve entry)
    finding.anchor.1.line.toNat finding.identityHash finding.checkerName).1

/-- The pass with the source of a file table entry looked up. -/
def lookedUp (entry : String) : Pass :=
  pass.withSources
    (pass.formatter.sources.file pass.fs (pass.formatter.enricher.resolve entry)).2

end Pass

/-- What a verdict on a finding means. A reason is looked for only if those before it do not hold.
-/
inductive Judged (files : FileTable) (pass : Pass) (finding : Finding) : Verdict → Prop
  | outsideTable (hd : finding.displayFile? files = none) : Judged files pass finding .outsideTable
  | excluded {displayFile : String} (hd : finding.displayFile? files = some displayFile)
      (hx : pass.excludes displayFile = true) : Judged files pass finding .excluded
  | suppressed {displayFile : String} (hd : finding.displayFile? files = some displayFile)
      (hx : pass.excludes displayFile = false)
      (hs : pass.suppresses finding displayFile = true) : Judged files pass finding .suppressed
  | withoutAnchor {displayFile : String} (hd : finding.displayFile? files = some displayFile)
      (hx : pass.excludes displayFile = false) (hs : pass.suppresses finding displayFile = false)
      (he : files.get? finding.anchor.1.file = none) : Judged files pass finding .withoutAnchor
  | marked {displayFile entry : String} (hd : finding.displayFile? files = some displayFile)
      (hx : pass.excludes displayFile = false) (hs : pass.suppresses finding displayFile = false)
      (he : files.get? finding.anchor.1.file = some entry)
      (hm : (pass.marker? finding entry).isSome) : Judged files pass finding .marked
  | shown {displayFile entry : String} (hd : finding.displayFile? files = some displayFile)
      (hx : pass.excludes displayFile = false) (hs : pass.suppresses finding displayFile = false)
      (he : files.get? finding.anchor.1.file = some entry)
      (hm : pass.marker? finding entry = none) :
      Judged files pass finding (.shown entry displayFile)

namespace Pass

section Equations

variable {files : FileTable} {pass : Pass} {finding : Finding} {displayFile entry : String}
  {found : InlineSuppression}

theorem judge_of_outsideTable (hd : finding.displayFile? files = none) :
    pass.judge files finding = (.outsideTable, pass.report (.warn
      s!"report {finding.identityHash} points outside the file table, skipping")) := by
  simp only [judge, hd]

variable (hd : finding.displayFile? files = some displayFile)
include hd

theorem judge_of_excluded (hx : pass.excludes displayFile = true) :
    pass.judge files finding = (.excluded, pass) := by
  rw [excludes] at hx
  simp only [judge, hd, hx, if_true]

variable (hx : pass.excludes displayFile = false)
include hx

theorem judge_of_suppressed (hs : pass.suppresses finding displayFile = true) :
    pass.judge files finding = (.suppressed, pass) := by
  rw [excludes] at hx
  rw [suppresses] at hs
  simp only [judge, hd, hx, hs, if_true, if_false, Bool.false_eq_true]

variable (hs : pass.suppresses finding displayFile = false)
include hs

/-- Only for a finding that is neither excluded nor suppressed, a marker is looked for. -/
theorem judge_of_not_suppressed :
    pass.judge files finding =
      match files.get? finding.anchor.1.file with
      | none => (.withoutAnchor, pass)
      | some entry =>
        match pass.marker? finding entry with
        | some found => (.marked, (pass.lookedUp entry).promote found)
        | none => (.shown entry displayFile, pass.lookedUp entry) := by
  rw [excludes] at hx
  rw [suppresses] at hs
  simp only [judge, hd, hx, hs, if_false, Bool.false_eq_true]
  rfl

theorem judge_of_withoutAnchor (he : files.get? finding.anchor.1.file = none) :
    pass.judge files finding = (.withoutAnchor, pass) := by
  rw [judge_of_not_suppressed hd hx hs, he]

variable (he : files.get? finding.anchor.1.file = some entry)
include he

theorem judge_of_marked (hm : pass.marker? finding entry = some found) :
    pass.judge files finding = (.marked, (pass.lookedUp entry).promote found) := by
  rw [judge_of_not_suppressed hd hx hs, he]
  simp only [hm]

theorem judge_of_shown (hm : pass.marker? finding entry = none) :
    pass.judge files finding = (.shown entry displayFile, pass.lookedUp entry) := by
  rw [judge_of_not_suppressed hd hx hs, he]
  simp only [hm]

end Equations

end Pass

/-- Every finding has a verdict that means what it says. -/
theorem exists_judged (files : FileTable) (pass : Pass) (finding : Finding) :
    ∃ verdict, Judged files pass finding verdict := by
  cases hd : finding.displayFile? files with
  | none => exact ⟨_, .outsideTable hd⟩
  | some displayFile =>
    cases hx : pass.excludes displayFile with
    | true => exact ⟨_, .excluded hd hx⟩
    | false =>
      cases hs : pass.suppresses finding displayFile with
      | true => exact ⟨_, .suppressed hd hx hs⟩
      | false =>
        cases he : files.get? finding.anchor.1.file with
        | none => exact ⟨_, .withoutAnchor hd hx hs he⟩
        | some entry =>
          cases hm : pass.marker? finding entry with
          | some found => exact ⟨_, .marked hd hx hs he (by rw [hm]; rfl)⟩
          | none => exact ⟨_, .shown hd hx hs he hm⟩

theorem Judged.judge_fst {files : FileTable} {pass : Pass} {finding : Finding} {verdict : Verdict}
    (h : Judged files pass finding verdict) : (pass.judge files finding).1 = verdict := by
  cases h with
  | outsideTable hd => rw [Pass.judge_of_outsideTable hd]
  | excluded hd hx => rw [Pass.judge_of_excluded hd hx]
  | suppressed hd hx hs => rw [Pass.judge_of_suppressed hd hx hs]
  | withoutAnchor hd hx hs he => rw [Pass.judge_of_withoutAnchor hd hx hs he]
  | marked hd hx hs he hm =>
    obtain ⟨found, hm⟩ := Option.isSome_iff_exists.1 hm
    rw [Pass.judge_of_marked hd hx hs he hm]
  | shown hd hx hs he hm => rw [Pass.judge_of_shown hd hx hs he hm]

theorem judged (files : FileTable) (pass : Pass) (finding : Finding) :
    Judged files pass finding (pass.judge files finding).1 := by
  obtain ⟨verdict, h⟩ := exists_judged files pass finding
  rwa [h.judge_fst]

/-- A finding that is shown is shown with the entry of its anchor. -/
theorem Judged.of_shown {files : FileTable} {pass : Pass} {finding : Finding}
    {entry displayFile : String} (h : Judged files pass finding (.shown entry displayFile)) :
    finding.displayFile? files = some displayFile ∧
      files.get? finding.anchor.1.file = some entry := by
  cases h with
  | shown hd hx hs he hm => exact ⟨hd, he⟩

/-! ## The pass afterwards -/

namespace Pass

variable {store : SuppressionStore}

theorem store_promote (pass : Pass) (hs : pass.formatter.store = some store)
    (found : InlineSuppression) :
    let added := store.add pass.fs found.hash found.fileName found.comment
    ∃ log, pass.promote found =
      { pass with
        formatter := { pass.formatter with store := some added.2.1 }
        fs := added.2.2
        log } := by
  unfold promote
  rw [hs]
  simp only
  split <;> exact ⟨_, rfl⟩

theorem promote_eq (pass : Pass) (found : InlineSuppression) :
    ∃ store fs log, pass.promote found =
      { pass with formatter := { pass.formatter with store }, fs, log } := by
  cases hs : pass.formatter.store with
  | none =>
    refine ⟨none, pass.fs, pass.log, ?_⟩
    obtain ⟨⟨_, _, store, _, _, _⟩, _, _, _, _⟩ := pass
    obtain rfl : store = none := hs
    rfl
  | some store =>
    obtain ⟨log, hp⟩ := store_promote pass hs found
    exact ⟨_, _, log, hp⟩

/-- How a finding comes to be marked: it is neither excluded nor suppressed, and the source of its
anchor has a marker for it. All other verdicts change nothing but the sources and the log. -/
theorem judge_cases (pass : Pass) (files : FileTable) (finding : Finding) :
    ((pass.judge files finding).1 ≠ .marked ∧
        ∃ earlier ⊆ pass.formatter.enricher.sourcePaths files, ∃ log,
          (pass.judge files finding).2 =
            { pass.withSources (pass.formatter.sources.after pass.fs earlier) with log }) ∨
      ∃ displayFile entry found, finding.displayFile? files = some displayFile ∧
        pass.suppresses finding displayFile = false ∧
        files.get? finding.anchor.1.file = some entry ∧
        pass.marker? finding entry = some found ∧
        pass.judge files finding = (.marked, (pass.lookedUp entry).promote found) := by
  obtain ⟨verdict, hj⟩ := exists_judged files pass finding
  cases hj with
  | outsideTable hd =>
    rw [judge_of_outsideTable hd]
    exact .inl ⟨nofun, [], List.nil_subset _, _, rfl⟩
  | excluded hd hx =>
    rw [judge_of_excluded hd hx]
    exact .inl ⟨nofun, [], List.nil_subset _, pass.log, rfl⟩
  | suppressed hd hx hs =>
    rw [judge_of_suppressed hd hx hs]
    exact .inl ⟨nofun, [], List.nil_subset _, pass.log, rfl⟩
  | withoutAnchor hd hx hs he =>
    rw [judge_of_withoutAnchor hd hx hs he]
    exact .inl ⟨nofun, [], List.nil_subset _, pass.log, rfl⟩
  | marked hd hx hs he hm =>
    obtain ⟨found, hm⟩ := Option.isSome_iff_exists.1 hm
    exact .inr ⟨_, _, found, hd, hs, he, hm, judge_of_marked hd hx hs he hm⟩
  | shown hd hx hs he hm =>
    rw [judge_of_shown hd hx hs he hm]
    exact .inl ⟨nofun, [pass.formatter.enricher.resolve _],
      List.cons_subset.2 ⟨Enricher.resolve_mem_sourcePaths _ he, List.nil_subset _⟩, pass.log, rfl⟩

/-- Two passes that agree on every reason of a verdict reach the same one, and what they have in
common is kept if it does not depend on what is looked up, logged or promoted. -/
theorem judge_rel {R : Pass → Pass → Prop} (first second : Pass) (files : FileTable)
    (finding : Finding) (h : R first second)
    (hexcludes : ∀ displayFile ∈ finding.displayFile? files,
      second.excludes displayFile = first.excludes displayFile)
    (hsuppresses : ∀ displayFile,
      second.suppresses finding displayFile = first.suppresses finding displayFile)
    (hlookedUp : ∀ entry ∈ files.get? finding.anchor.1.file,
      second.marker? finding entry = first.marker? finding entry ∧
        R (first.lookedUp entry) (second.lookedUp entry))
    (hreport : ∀ entry, R (first.report entry) (second.report entry))
    (hpromote : ∀ first second found, R first second →
      R (first.promote found) (second.promote found)) :
    (first.judge files finding).1 = (second.judge files finding).1 ∧
      R (first.judge files finding).2 (second.judge files finding).2 := by
  obtain ⟨verdict, hj⟩ := exists_judged files first finding
  cases hj with
  | outsideTable hd =>
    rw [judge_of_outsideTable hd, judge_of_outsideTable hd]
    exact ⟨rfl, hreport _⟩
  | excluded hd hx =>
    rw [judge_of_excluded hd hx, judge_of_excluded hd ((hexcludes _ hd).trans hx)]
    exact ⟨rfl, h⟩
  | suppressed hd hx hs =>
    rw [judge_of_suppressed hd hx hs,
      judge_of_suppressed hd ((hexcludes _ hd).trans hx) ((hsuppresses _).trans hs)]
    exact ⟨rfl, h⟩
  | withoutAnchor hd hx hs he =>
    rw [judge_of_withoutAnchor hd hx hs he,
      judge_of_withoutAnchor hd ((hexcludes _ hd).trans hx) ((hsuppresses _).trans hs) he]
    exact ⟨rfl, h⟩
  | marked hd hx hs he hm =>
    obtain ⟨hmarker, hafter⟩ := hlookedUp _ he
    obtain ⟨found, hm⟩ := Option.isSome_iff_exists.1 hm
    rw [judge_of_marked hd hx hs he hm, judge_of_marked hd ((hexcludes _ hd).trans hx)
      ((hsuppresses _).trans hs) he (hmarker.trans hm)]
    exact ⟨rfl, hpromote _ _ found hafter⟩
  | shown hd hx hs he hm =>
    obtain ⟨hmarker, hafter⟩ := hlookedUp _ he
    rw [judge_of_shown hd hx hs he hm, judge_of_shown hd ((hexcludes _ hd).trans hx)
      ((hsuppresses _).trans hs) he (hmarker.trans hm)]
    exact ⟨rfl, hafter⟩

/-- The enricher is that of the formatter throughout a report. -/
theorem enricher_judge (pass : Pass) (files : FileTable) (finding : Finding) :
    (pass.judge files finding).2.formatter.enricher = pass.formatter.enricher := by
  obtain ⟨-, earlier, -, log, hj⟩ | ⟨-, entry, found, -, -, -, -, hj⟩ :=
    judge_cases pass files finding
  · rw [hj]
    rfl
  · obtain ⟨store, fs, log, hp⟩ := (pass.lookedUp entry).promote_eq found
    rw [hj, hp]
    rfl

end Pass

end Findings
