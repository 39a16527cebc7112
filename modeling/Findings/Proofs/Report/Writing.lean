import Findings.Proofs.Report.Verdict

/-!
# What writing leaves alone

Writing text changes the sink, and the sources that are read for it; all else in a pass stays as it
was judged, whether or not the text fits.

* `run_bind`, `run_emit`, `run_context`, `run_finding_of_shown`: what the actions of a report do to
  a pass.
* `Scripted`: what the actions that write a finding are made of. `scripted_block`: these are.
* `Keeps`: an action leaves a view of the pass alone; what is made of such actions does so too.
* `Scripted.keeps`: writing a finding keeps every view without the sink and the sources.
* `view_finding`: so what a finding changes in such a view is what judging it changes.
* `view_all`: a report changes in such a view what its findings change.
-/

namespace Findings.Writing

variable {α β γ : Type}

/-! ## Runs of actions -/

theorem run_bind (action : Writing α) (next : α → Writing β) (pass : Pass) :
    (action >>= next).run pass =
      match action.run pass with
      | (.ok a, after) => (next a).run after
      | (.error e, after) => (.error e, after) := by
  rw [ExceptT.run_bind]
  change (StateT.bind _ _ pass : Id _) = _
  unfold StateT.bind
  change (match action.run pass with | (result, after) => _) = _
  rcases action.run pass with ⟨_ | _, _⟩ <;> rfl

theorem run_get (pass : Pass) : (get : Writing Pass).run pass = (.ok pass, pass) :=
  rfl

theorem run_forM_cons (action : α → Writing PUnit) (a : α) (rest : List α) (pass : Pass) :
    ((a :: rest).forM action).run pass =
      match (action a).run pass with
      | (.ok _, after) => (rest.forM action).run after
      | (.error e, after) => (.error e, after) := by
  rw [List.forM_eq_forM, List.forM_cons, run_bind]
  rcases (action a).run pass with ⟨_ | _, _⟩ <;> rfl

theorem run_emit (text : String) (pass : Pass) :
    (emit text).run pass =
      (if (pass.sink.write text).1 then .ok () else .error (.output Sink.fullMessage),
        { pass with sink := (pass.sink.write text).2 }) := by
  unfold emit
  simp only [run_bind]
  change (if _ then _ else _ : Writing Unit).run _ = _
  split <;> rfl

theorem run_context (entry : String) (location : Location) (pass : Pass) :
    (context entry location).run pass =
      let (line, sources) := pass.formatter.sources.line pass.fs
        (pass.formatter.enricher.resolve entry) location.line.toNat
      (match line with
        | some line => emit (Layout.caretBlock line location.col.toNat ++ "\n")
        | none => pure () : Writing Unit).run (pass.withSources sources) :=
  rfl

/-- A finding that is shown is counted and written. -/
theorem run_finding_of_shown {files : FileTable} {finding : Finding} {pass after : Pass}
    {entry displayFile : String}
    (h : pass.judge files finding = (.shown entry displayFile, after)) :
    (Writing.finding files finding).run pass =
      (block files finding (after.formatter.severities.severityOf finding.checkerName) entry).run
        { after with
          stats := after.stats.record
            (after.formatter.severities.severityOf finding.checkerName) displayFile } := by
  unfold Writing.finding
  rw [run_bind, run_get]
  dsimp only
  rw [h]
  rfl

/-- Any other finding is only judged. -/
theorem run_finding_of_not_shown {files : FileTable} {finding : Finding} {pass : Pass}
    (h : ∀ entry displayFile, (pass.judge files finding).1 ≠ .shown entry displayFile) :
    (Writing.finding files finding).run pass = (.ok (), (pass.judge files finding).2) := by
  unfold Writing.finding
  rw [run_bind, run_get]
  dsimp only
  revert h
  rcases pass.judge files finding with ⟨verdict, after⟩
  intro h
  cases verdict with
  | shown entry displayFile => exact absurd rfl (h entry displayFile)
  | outsideTable | excluded | suppressed | withoutAnchor | marked => rfl

/-! ## The actions that write a finding -/

/-- What writes a finding: texts, the source lines of file table entries, one after the other, and
what depends on whether steps are listed. -/
inductive Scripted (files : FileTable) : Writing Unit → Prop
  | pure : Scripted files (Pure.pure ())
  | emit (text : String) : Scripted files (emit text)
  | context {entry : String} (he : entry ∈ files.paths) (location : Location) :
      Scripted files (context entry location)
  | seq {action next : Writing Unit} (ha : Scripted files action) (hn : Scripted files next) :
      Scripted files (action >>= fun _ => next)
  | layout {listing quiet : Writing Unit} (hl : Scripted files listing)
      (hq : Scripted files quiet) :
      Scripted files (get >>= fun pass => if pass.formatter.printSteps then listing else quiet)

theorem scripted_steps (files : FileTable) (width number : Nat)
    (located : List (Location × String)) : Scripted files (steps files width number located) := by
  induction located generalizing number with
  | nil => exact .pure
  | cons step rest ih =>
    obtain ⟨location, message⟩ := step
    unfold steps
    cases he : files.get? location.file with
    | none => exact .seq .pure (ih (number + 1))
    | some entry =>
      exact .seq (.emit _)
        (.seq (.context (FileTable.mem_paths_of_get? he) location) (ih (number + 1)))

theorem scripted_stepList (files : FileTable) (finding : Finding) :
    Scripted files (stepList files finding) :=
  .seq (.emit _) (.seq (.emit _) (scripted_steps files _ _ _))

theorem scripted_block {files : FileTable} {entry : String} (he : entry ∈ files.paths)
    (finding : Finding) (severity : String) :
    Scripted files (block files finding severity entry) :=
  .seq (.emit _) (.seq (.context he _)
    (.layout (.seq (scripted_stepList files finding) (.emit "\n")) (.emit "\n")))

/-! ## Views that are kept -/

/-- Whatever an action does, and even if it fails, it leaves a view of the pass as it was. -/
def Keeps (view : Pass → γ) (action : Writing α) : Prop :=
  ∀ pass, view (action.run pass).2 = view pass

/-- A view of the pass without the sink and the sources. -/
structure Unwritten (view : Pass → γ) : Prop where
  sink : ∀ pass sink, view { pass with sink } = view pass
  sources : ∀ pass sources, view (pass.withSources sources) = view pass

variable {view : Pass → γ}

theorem Keeps.pure (a : α) : Keeps view (Pure.pure a : Writing α) :=
  fun _ => rfl

theorem Keeps.bind {action : Writing α} {next : α → Writing β} (ha : Keeps view action)
    (hn : ∀ a, Keeps view (next a)) : Keeps view (action >>= next) := by
  intro pass
  have hp := ha pass
  rw [run_bind]
  revert hp
  rcases action.run pass with ⟨e | a, after⟩
  · exact id
  · exact (hn a after).trans

theorem keeps_get : Keeps view (get : Writing Pass) :=
  fun _ => rfl

section Unwritten

variable (hv : Unwritten view)
include hv

theorem keeps_emit (text : String) : Keeps view (emit text) := by
  intro pass
  rw [run_emit]
  exact hv.sink pass _

theorem keeps_context (entry : String) (location : Location) :
    Keeps view (context entry location) := by
  intro pass
  rw [run_context]
  rcases pass.formatter.sources.line pass.fs _ _ with ⟨line | _, sources⟩
  · exact hv.sources pass sources
  · exact (keeps_emit hv _ _).trans (hv.sources pass sources)

/-- Writing a finding keeps every view without the sink and the sources. -/
theorem Scripted.keeps {files : FileTable} {action : Writing Unit} (h : Scripted files action) :
    Keeps view action := by
  induction h with
  | pure => exact .pure ()
  | emit text => exact keeps_emit hv text
  | context he location => exact keeps_context hv _ location
  | seq _ _ iha ihn => exact .bind iha fun _ => ihn
  | layout _ _ ihl ihq =>
    refine .bind keeps_get fun pass => ?_
    split
    · exact ihl
    · exact ihq

/-- In a view without the counts, a finding changes what judging it changes. -/
theorem view_finding (hstats : ∀ pass stats, view { pass with stats } = view pass)
    (files : FileTable) (finding : Finding) (pass : Pass) :
    view ((Writing.finding files finding).run pass).2 = view (pass.judge files finding).2 := by
  rcases h : pass.judge files finding with ⟨verdict, after⟩
  cases verdict with
  | shown entry displayFile =>
    have hj := judged files pass finding
    rw [h] at hj
    have he : entry ∈ files.paths := FileTable.mem_paths_of_get? hj.of_shown.2
    rw [run_finding_of_shown h]
    exact ((scripted_block he finding _).keeps hv _).trans (hstats after _)
  | outsideTable | excluded | suppressed | withoutAnchor | marked =>
    rw [run_finding_of_not_shown (by simp [h]), h]

/-- The last line of a report changes no such view. -/
theorem view_all (files : FileTable) (findings : List Finding) (analyzed : Option String)
    (pass : Pass) :
    view ((all files findings analyzed).run pass).2 =
      view ((findings.forM (Writing.finding files)).run pass).2 := by
  unfold all
  rw [run_bind]
  rcases (findings.forM (Writing.finding files)).run pass with ⟨e | u, after⟩
  · rfl
  · have hkeeps : Keeps view (do
        let stats := (← get).stats
        emit (Layout.summary stats.reportCount analyzed)
        Pure.pure stats) :=
      .bind keeps_get fun _ => .bind (keeps_emit hv _) fun _ => .pure _
    exact hkeeps after

end Unwritten

end Findings.Writing
