import Findings.Proofs.Bundle.Plain
import Findings.Proofs.Report.Independence

/-!
# Reports do not show extra members

What becomes of a finding, what is written for it and what it is counted under depend on the plain
finding only. So a report looks the same for findings that look the same.

* `anchor_plain`, `displayFile?_plain`, `locatedEvents_plain`: where a finding is shown.
* `verdict_plain`, `blockText_plain`: what becomes of it, and its text.
* `textOf_congr`, `statsOf_congr`: whole reports of findings that are shown.
* `Writing.all_congr`: writing any findings, with all that is judged on the way.
-/

namespace Findings

namespace Finding

variable (finding : Finding)

/-! ## Where a finding is shown -/

theorem isSome_location_plain (step : Step) :
    step.plain.location.isSome = step.location.isSome :=
  Option.isSome_map

theorem lastEvent?_plain : finding.plain.lastEvent? = finding.lastEvent?.map Step.plain := by
  have hlocated : (finding.plain.path.reverse.filter fun step => step.location.isSome) =
      (finding.path.reverse.filter fun step => step.location.isSome).map Step.plain := by
    rw [plain, ← List.map_reverse, List.filter_map]
    simp only [Function.comp_def, isSome_location_plain]
  unfold lastEvent?
  dsimp only
  rw [hlocated, List.find?_map, List.head?_map]
  change (Option.map Step.plain _).or _ = _
  rw [← Option.map_or]
  rfl

theorem lastStep?_plain : finding.plain.lastStep? = finding.lastStep?.map Step.plain := by
  unfold lastStep?
  rw [plain, List.getLast?_map]
  cases finding.path.getLast? with
  | none => rfl
  | some step =>
    simp only [Option.map_some, Option.filter_some, isSome_location_plain]
    split <;> rfl

theorem displayFile?_plain (files : FileTable) :
    finding.plain.displayFile? files = finding.displayFile? files := by
  unfold displayFile?
  rw [lastEvent?_plain]
  cases finding.lastEvent? with
  | none => rfl
  | some step =>
    obtain ⟨kind, location, message, ranges, edges, extra⟩ := step
    cases location <;> rfl

theorem anchor_plain :
    finding.plain.anchor = (finding.anchor.1.plain, finding.anchor.2) := by
  unfold anchor
  rw [lastStep?_plain, lastEvent?_plain, ← Option.map_or]
  cases finding.lastStep?.or finding.lastEvent? with
  | none => rfl
  | some step =>
    obtain ⟨kind, location, message, ranges, edges, extra⟩ := step
    cases location <;> rfl

theorem locatedEvents_plain :
    finding.plain.locatedEvents =
      finding.locatedEvents.map fun event => (event.1.plain, event.2) := by
  unfold locatedEvents events
  rw [plain, List.filter_map, List.filterMap_map, List.map_filterMap]
  refine List.filterMap_congr fun step _ => ?_
  change (step.location.map Location.plain).map _ = _
  cases step.location <;> rfl

end Finding

/-! ## Texts -/

namespace Enricher

variable (enricher : Enricher) (lookup : String → Option SourceFile) (files : FileTable)

theorem stepsText_plain (width number : Nat) (located : List (Location × String)) :
    enricher.stepsText lookup files width number
        (located.map fun event => (event.1.plain, event.2)) =
      enricher.stepsText lookup files width number located := by
  induction located generalizing number with
  | nil => rfl
  | cons event rest ih =>
    obtain ⟨location, message⟩ := event
    rw [List.map_cons, stepsText, stepsText, ih]
    rfl

end Enricher

namespace Formatter

variable (formatter : Formatter) (files : FileTable) (lookup : String → Option SourceFile)

theorem verdict_plain (finding : Finding) :
    formatter.verdict files lookup finding.plain = formatter.verdict files lookup finding := by
  unfold verdict
  rw [Finding.displayFile?_plain, Finding.anchor_plain]
  rfl

theorem survives_plain (finding : Finding) :
    formatter.survives files lookup finding.plain = formatter.survives files lookup finding := by
  rw [survives, survives, verdict_plain]

theorem stepListText_plain (finding : Finding) :
    formatter.stepListText files lookup finding.plain =
      formatter.stepListText files lookup finding := by
  unfold stepListText
  rw [Finding.locatedEvents_plain, List.length_map, Enricher.stepsText_plain]
  rfl

theorem blockText_plain (finding : Finding) :
    formatter.blockText files lookup finding.plain = formatter.blockText files lookup finding := by
  unfold blockText
  rw [Finding.anchor_plain, stepListText_plain]
  rfl

/-! ## Reports -/

variable {findings others : List Finding}

theorem textOf_plain (shown : List Finding) (analyzed : Option String) :
    formatter.textOf files lookup (shown.map Finding.plain) analyzed =
      formatter.textOf files lookup shown analyzed := by
  rw [textOf, textOf, List.map_map, List.length_map]
  simp only [Function.comp_def, blockText_plain]

theorem statsOf_plain (shown : List Finding) :
    formatter.statsOf files (shown.map Finding.plain) = formatter.statsOf files shown := by
  rw [statsOf, statsOf, Stats.recordAll, Stats.recordAll, List.foldl_map]
  simp only [Finding.displayFile, Finding.displayFile?_plain]
  rfl

theorem filter_survives_plain (findings : List Finding) :
    (findings.map Finding.plain).filter (formatter.survives files lookup) =
      (findings.filter (formatter.survives files lookup)).map Finding.plain := by
  rw [List.filter_map]
  simp only [Function.comp_def, survives_plain]

/-- Findings that look the same have the same report. -/
theorem textOf_congr (h : others.map Finding.plain = findings.map Finding.plain)
    (analyzed : Option String) :
    formatter.textOf files lookup (others.filter (formatter.survives files lookup)) analyzed =
      formatter.textOf files lookup (findings.filter (formatter.survives files lookup))
        analyzed := by
  rw [← textOf_plain, ← filter_survives_plain, h, filter_survives_plain, textOf_plain]

/-- Findings that look the same are counted alike. -/
theorem statsOf_congr (h : others.map Finding.plain = findings.map Finding.plain) :
    formatter.statsOf files (others.filter (formatter.survives files lookup)) =
      formatter.statsOf files (findings.filter (formatter.survives files lookup)) := by
  rw [← statsOf_plain, ← filter_survives_plain, h, filter_survives_plain, statsOf_plain]

end Formatter

/-! ## Writing -/

theorem Pass.judge_plain (pass : Pass) (files : FileTable) (finding : Finding) :
    pass.judge files finding.plain = pass.judge files finding := by
  unfold judge
  rw [Finding.displayFile?_plain, Finding.anchor_plain]
  rfl

namespace Writing

variable (files : FileTable)

theorem steps_plain (width number : Nat) (located : List (Location × String)) :
    steps files width number (located.map fun event => (event.1.plain, event.2)) =
      steps files width number located := by
  induction located generalizing number with
  | nil => rfl
  | cons event rest ih =>
    obtain ⟨location, message⟩ := event
    rw [List.map_cons, steps, steps, ih]
    rfl

theorem stepList_plain (finding : Finding) :
    stepList files finding.plain = stepList files finding := by
  unfold stepList
  simp only [Finding.locatedEvents_plain, List.length_map, steps_plain]
  rfl

theorem block_plain (finding : Finding) (severity entry : String) :
    block files finding.plain severity entry = block files finding severity entry := by
  unfold block
  rw [Finding.anchor_plain, stepList_plain]
  rfl

/-- What is written for a finding does not depend on its extra members. -/
theorem finding_plain (finding : Finding) :
    Writing.finding files finding.plain = Writing.finding files finding := by
  unfold Writing.finding
  simp only [Pass.judge_plain, block_plain]
  rfl

/-- Findings that look the same are written alike, whatever is added to the store meanwhile. -/
theorem all_congr {findings others : List Finding}
    (h : others.map Finding.plain = findings.map Finding.plain) (analyzed : Option String) :
    all files others analyzed = all files findings analyzed := by
  have hplain (findings : List Finding) :
      findings.forM (Writing.finding files) =
        (findings.map Finding.plain).forM (Writing.finding files) := by
    rw [List.forM_eq_forM, List.forM_map]
    simp only [finding_plain]
  unfold all
  rw [hplain others, h, ← hplain]

end Writing

end Findings
