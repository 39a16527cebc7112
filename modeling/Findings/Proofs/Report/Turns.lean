import Findings.Proofs.Report.Independence

/-!
# The findings of a report, one after the other

What becomes of a finding depends on the findings before it, through the store and the cache. So
each is taken together with the pass that it is judged in.

* `Pass.turns`: the findings with their passes; `Pass.shown`: those that are shown.
* `writes_turns`, `writes_all_of_agrees`: a report writes the texts of the findings that are shown,
  and counts them. The texts are functions of the sources that were looked up.
-/

namespace Findings

namespace Pass

variable (files : FileTable)

/-- The findings of a report, each with the pass that it is judged in. -/
def turns : Pass → List Finding → List (Pass × Finding)
  | _, [] => []
  | pass, finding :: rest =>
    (pass, finding) :: turns ((Writing.finding files finding).run pass).2 rest

/-- The findings that are shown. -/
def shown (pass : Pass) (findings : List Finding) : List Finding :=
  ((pass.turns files findings).filter fun turn => (turn.1.judge files turn.2).1.isShown).map
    Prod.snd

theorem map_snd_turns (pass : Pass) (findings : List Finding) :
    (pass.turns files findings).map Prod.snd = findings := by
  induction findings generalizing pass with
  | nil => rfl
  | cons finding rest ih => rw [turns, List.map_cons, ih]

theorem shown_sublist (pass : Pass) (findings : List Finding) :
    (pass.shown files findings).Sublist findings := by
  have hsub := (List.filter_sublist
    (p := fun turn => (turn.1.judge files turn.2).1.isShown) (l := pass.turns files findings)).map
    Prod.snd
  rwa [map_snd_turns] at hsub

theorem shown_cons (pass : Pass) (finding : Finding) (rest : List Finding) :
    pass.shown files (finding :: rest) =
      if (pass.judge files finding).1.isShown then
        finding :: shown files ((Writing.finding files finding).run pass).2 rest
      else shown files ((Writing.finding files finding).run pass).2 rest := by
  rw [shown, turns, List.filter_cons]
  split <;> rfl

end Pass

namespace Writing

variable {files : FileTable} {pass after : Pass} {text : String}

/-- Where a sink takes any text, an action that writes one ends as on every other sink. -/
theorem Writes.run_of_unlimited {action : Writing Unit} (h : Writes action pass text () after)
    (hs : pass.sink.capacity = none) :
    ∃ sink, sink.capacity = none ∧ action.run pass = (.ok (), { after with sink }) :=
  ⟨(pass.sink.write text).2, hs, h.fits pass.sink (Sink.write_fst_of_unlimited hs text)⟩

/-- A finding that is not shown may only have added to the store. -/
theorem of_hidden {pass after : Pass} {sources : SourceCache}
    (h : (∃ log, after = { pass.withSources sources with log }) ∨
      ∃ found, after = (pass.withSources sources).promote found) :
    (∃ store, after.formatter = { pass.formatter with store, sources }) ∧
      after.stats = pass.stats := by
  obtain ⟨log, rfl⟩ | ⟨found, rfl⟩ := h
  · exact ⟨⟨_, rfl⟩, rfl⟩
  · obtain ⟨store, fs, log, hp⟩ := (pass.withSources sources).promote_eq found
    rw [hp]
    exact ⟨⟨_, rfl⟩, rfl⟩

variable (files)

/-- A report writes the texts of the findings that are shown, and counts these. -/
theorem writes_turns (pass : Pass) (hs : pass.sink.capacity = none) (findings : List Finding) :
    ∃ after, (∃ store sources, after.formatter = { pass.formatter with store, sources }) ∧
      after.stats = pass.stats.recordAll pass.formatter.severityOf (Finding.displayFile files)
        (pass.shown files findings) ∧
      ∀ lookup, after.formatter.sources.Agrees (pass.formatter.enricher.sourcePaths files) lookup →
        pass.formatter.sources.Agrees (pass.formatter.enricher.sourcePaths files) lookup ∧
          Writes (forM findings (Writing.finding files)) pass
            (String.join ((pass.shown files findings).map
              (pass.formatter.blockText files lookup))) () after := by
  induction findings generalizing pass with
  | nil => exact ⟨pass, ⟨_, _, rfl⟩, rfl, fun lookup ha => ⟨ha, .pure () pass⟩⟩
  | cons finding rest ih =>
    rw [Pass.shown_cons]
    obtain ⟨earlier, -, ⟨hj, log, hshown⟩ | ⟨hj, mid, hhidden, hmid⟩⟩ :=
      writes_finding files pass finding
    · obtain ⟨sink, hsink, hrun⟩ :=
        (hshown _ (SourceCache.agrees_known _ _)).2.run_of_unlimited hs
      rw [if_pos hj, hrun]
      obtain ⟨after, hform, hstats, hrest⟩ := ih
        { pass.withSources (pass.formatter.sources.after pass.fs earlier) with
          stats := pass.stats.record (pass.formatter.severityOf finding) (finding.displayFile files)
          log, sink } hsink
      refine ⟨after, hform, hstats, fun lookup ha => ?_⟩
      obtain ⟨ha', hw⟩ := hrest lookup ha
      rw [List.map_cons, String.join_cons, List.forM_cons]
      exact ⟨SourceCache.Agrees.of_after ha', (hshown lookup ha').2.bind ⟨hw.fits, hw.full⟩⟩
    · obtain ⟨⟨store, hform⟩, hcounts⟩ := of_hidden hmid
      obtain ⟨sink, hsink, hrun⟩ :=
        (hhidden _ (SourceCache.agrees_known _ _)).2.run_of_unlimited hs
      rw [if_neg (by simp [hj]), hrun]
      obtain ⟨formatter, fs, sink', stats, log⟩ := mid
      obtain rfl : formatter = _ := hform
      obtain rfl : stats = pass.stats := hcounts
      obtain ⟨after, hform, hstats, hrest⟩ := ih
        { formatter :=
            { pass.formatter with store, sources := pass.formatter.sources.after pass.fs earlier }
          fs, sink, stats := pass.stats, log } hsink
      refine ⟨after, hform, hstats, fun lookup ha => ?_⟩
      obtain ⟨ha', hw⟩ := hrest lookup ha
      rw [List.forM_cons, ← String.empty_append (s := String.join _)]
      exact ⟨SourceCache.Agrees.of_after ha', (hhidden lookup ha').2.bind ⟨hw.fits, hw.full⟩⟩

/-- After the findings comes the last line, with their number. All of it is a function of the
sources that were looked up. -/
theorem writes_all_of_agrees (pass : Pass) (hs : pass.sink.capacity = none)
    (hstats : pass.stats = .empty) (findings : List Finding) (analyzed : Option String)
    {lookup : String → Option SourceFile}
    (ha : ((forM findings (Writing.finding files)).run pass).2.formatter.sources.Agrees
      (pass.formatter.enricher.sourcePaths files) lookup) :
    ∃ after, Writes (all files findings analyzed) pass
      (pass.formatter.textOf files lookup (pass.shown files findings) analyzed)
      (pass.formatter.statsOf files (pass.shown files findings)) after := by
  obtain ⟨after, -, hafter, hw⟩ := writes_turns files pass hs findings
  obtain ⟨sink, -, hrun⟩ := (hw _ (SourceCache.agrees_known _ _)).2.run_of_unlimited hs
  rw [hrun] at ha
  have hstatsOf : after.stats = pass.formatter.statsOf files (pass.shown files findings) := by
    rw [hafter, hstats]
    rfl
  have hall := (hw lookup ha).2.all analyzed
  rw [hstatsOf, (pass.formatter.counts_statsOf files _).reportCount] at hall
  exact ⟨after, hall⟩

theorem writes_shown (pass : Pass) (hs : pass.sink.capacity = none) (hstats : pass.stats = .empty)
    (findings : List Finding) (analyzed : Option String) :
    ∃ lookup after,
      Writes (all files findings analyzed) pass
        (pass.formatter.textOf files lookup (pass.shown files findings) analyzed)
        (pass.formatter.statsOf files (pass.shown files findings)) after :=
  ⟨_, writes_all_of_agrees files pass hs hstats findings analyzed (SourceCache.agrees_known _ _)⟩

end Writing

end Findings
