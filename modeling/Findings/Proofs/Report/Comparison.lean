import Findings.Proofs.Bundle.InPlace
import Findings.Proofs.Report.Writing
import Findings.Proofs.Suppression.Agree

/-!
# Two reports side by side

A policy may be applied to the findings of a bundle while a report of them is written, or the
findings may have been left out before. Where the policy judges the file of a finding's own location
as the one it is displayed under, the states of the two reports stay the same up to the policy, the
content of the bundle, and the sources that were read so far.

* `Comparison.Matches`: the states of the two reports.
* `Writing.Preserves`: an action that does the same to both. `Scripted.preserves`: writing a finding
  is one.
* `Matches.judge`, `Matches.judge_of_excluded`: what becomes of a finding in each.
* `Matches.findings`, `Matches.all`: what becomes of all of them.
-/

namespace Findings

open FileSystem (AgreeBut)

/-- The policy makes no difference between the file of each finding's own location and the one it is
displayed under. -/
def SkipPolicy.JudgesAlike (policy : SkipPolicy) (files : FileTable) (findings : List Finding) :
    Prop :=
  ∀ finding ∈ findings, ∀ displayFile ∈ finding.displayFile? files,
    policy.excludes files finding.primaryFile = policy displayFile

/-- What two reports of a bundle have in common: the policy, which the one applies while it is
written, the enricher, the file table, the sources as a function of the path, and the place of the
bundle. -/
structure Comparison where
  policy : SkipPolicy
  enricher : Enricher
  files : FileTable
  lookup : String → Option SourceFile
  place : Place

namespace Comparison

/-- Where the sources are. -/
def sourcePaths (c : Comparison) : List String :=
  c.enricher.sourcePaths c.files

/-- The backing file of a store is neither the bundle nor a source. -/
def BackedElsewhere (c : Comparison) (fs : FileSystem) (store : SuppressionStore) : Prop :=
  ∀ file ∈ store.writableFile?,
    fs.Avoids file c.place ∧ ∀ source ∈ c.sourcePaths, fs.Apart source file

/-- A pass that leaves findings out by the policy, and a pass without a policy. They have the same
settings and have written and counted the same, their files differ in the bundle only, and sources
are the same function of the path for both. -/
structure Matches (c : Comparison) (skipping plain : Pass) : Prop where
  policy : skipping.formatter.policy = some c.policy
  noPolicy : plain.formatter.policy = none
  severities : skipping.formatter.severities = plain.formatter.severities
  printSteps : skipping.formatter.printSteps = plain.formatter.printSteps
  store : skipping.formatter.store = plain.formatter.store
  enricher : skipping.formatter.enricher = c.enricher
  sameEnricher : plain.formatter.enricher = c.enricher
  sink : skipping.sink = plain.sink
  stats : skipping.stats = plain.stats
  agree : AgreeBut c.place skipping.fs plain.fs
  sources : skipping.formatter.sources.LooksUp skipping.fs c.sourcePaths c.lookup
  sameSources : plain.formatter.sources.LooksUp plain.fs c.sourcePaths c.lookup
  backing : ∀ store ∈ skipping.formatter.store, c.BackedElsewhere skipping.fs store

variable {c : Comparison} {skipping plain : Pass}

theorem resolve_mem {entry : String} (h : entry ∈ c.files.paths) :
    c.enricher.resolve entry ∈ c.sourcePaths :=
  List.mem_map_of_mem h

/-- Looking up a source gives the same in both passes. -/
theorem Matches.file (h : c.Matches skipping plain) {path : String} (hp : path ∈ c.sourcePaths) :
    (skipping.formatter.sources.file skipping.fs path).1 =
        (plain.formatter.sources.file plain.fs path).1 ∧
      c.Matches (skipping.withSources (skipping.formatter.sources.file skipping.fs path).2)
        (plain.withSources (plain.formatter.sources.file plain.fs path).2) :=
  ⟨(h.sources.file hp).trans (h.sameSources.file hp).symm,
    { h with sources := h.sources.file_snd hp, sameSources := h.sameSources.file_snd hp }⟩

end Comparison

variable {c : Comparison} {skipping plain : Pass}

/-! ## Writing -/

namespace Writing

variable {α β : Type} {R : Pass → Pass → Prop}

/-- An action has the same result in two passes that are related, and leaves them related. -/
def Preserves (R : Pass → Pass → Prop) (action : Writing α) : Prop :=
  ∀ first second, R first second → (action.run first).1 = (action.run second).1 ∧
    R (action.run first).2 (action.run second).2

theorem Preserves.pure (a : α) : Preserves R (Pure.pure a : Writing α) :=
  fun _ _ h => ⟨rfl, h⟩

/-- What is done next has the same result if what was done so far has, and leaves the passes
related. -/
theorem bind_rel {action action' : Writing α} {next next' : α → Writing β} {first second : Pass}
    (ha : (action.run first).1 = (action'.run second).1 ∧
      R (action.run first).2 (action'.run second).2)
    (hn : ∀ a after after', R after after' →
      ((next a).run after).1 = ((next' a).run after').1 ∧
        R ((next a).run after).2 ((next' a).run after').2) :
    ((action >>= next).run first).1 = ((action' >>= next').run second).1 ∧
      R ((action >>= next).run first).2 ((action' >>= next').run second).2 := by
  obtain ⟨hresult, hafter⟩ := ha
  rw [run_bind, run_bind]
  revert hresult hafter
  rcases action.run first with ⟨result, after⟩
  rcases action'.run second with ⟨result', after'⟩
  rintro rfl hafter
  cases result with
  | error e => exact ⟨rfl, hafter⟩
  | ok a => exact hn a after after' hafter

theorem Preserves.bind {action : Writing α} {next : α → Writing β} (ha : Preserves R action)
    (hn : ∀ a, Preserves R (next a)) : Preserves R (action >>= next) :=
  fun first second h => bind_rel (ha first second h) hn

/-- An action may go on with what the two passes have in common. -/
theorem Preserves.get_bind {next : Pass → Writing β}
    (he : ∀ first second, R first second → next first = next second)
    (hn : ∀ pass, Preserves R (next pass)) : Preserves R (get >>= next) := by
  intro first second h
  rw [run_bind, run_bind, run_get, run_get]
  dsimp only
  rw [← he first second h]
  exact hn first first second h

theorem preserves_emit (text : String) : Preserves c.Matches (emit text) := by
  intro first second h
  rw [run_emit, run_emit, h.sink]
  exact ⟨rfl, { h with sink := rfl }⟩

theorem preserves_context {entry : String} (he : entry ∈ c.files.paths) (location : Location) :
    Preserves c.Matches (context entry location) := by
  intro first second h
  obtain ⟨hfile, hafter⟩ := h.file (Comparison.resolve_mem he)
  rw [run_context, run_context, h.enricher, h.sameEnricher]
  simp only [SourceCache.line, hfile]
  split
  · exact preserves_emit _ _ _ hafter
  · exact Preserves.pure () _ _ hafter

/-- Writing a finding is the same in both passes. -/
theorem Scripted.preserves {action : Writing Unit} (h : Scripted c.files action) :
    Preserves c.Matches action := by
  induction h with
  | pure => exact .pure ()
  | emit text => exact preserves_emit text
  | context he location => exact preserves_context he location
  | seq _ _ iha ihn => exact .bind iha fun _ => ihn
  | layout _ _ ihl ihq =>
    refine .get_bind (fun first second h => by rw [h.printSteps]) fun pass => ?_
    split
    · exact ihl
    · exact ihq

end Writing

/-! ## What becomes of a finding -/

namespace Comparison

theorem BackedElsewhere.of_agree {fs fs' : FileSystem} {store : SuppressionStore}
    (h : c.BackedElsewhere fs store) (ha : AgreeBut c.place fs fs') :
    c.BackedElsewhere fs' store := by
  intro file hf
  obtain ⟨hbundle, hsources⟩ := h file hf
  exact ⟨ha.avoids_iff.1 hbundle, fun source hm => ha.apart_iff.1 (hsources source hm)⟩

section Add

variable {fs : FileSystem} {store : SuppressionStore} (h : c.BackedElsewhere fs store)
  (hash fileName comment : String)
include h

/-- What is taken into the store is written neither to the bundle nor to a source. -/
theorem BackedElsewhere.add :
    c.BackedElsewhere (store.add fs hash fileName comment).2.2
      (store.add fs hash fileName comment).2.1 := by
  intro file hf
  rw [SuppressionStore.writableFile?_add] at hf
  obtain ⟨hbundle, hsources⟩ := h file hf
  exact ⟨SuppressionStore.avoids_add.2 hbundle,
    fun source hm => SuppressionStore.apart_add.2 (hsources source hm)⟩

theorem BackedElsewhere.fetch_add {source : String} (hm : source ∈ c.sourcePaths) :
    SourceCache.fetch (store.add fs hash fileName comment).2.2 source =
      SourceCache.fetch fs source :=
  SourceCache.fetch_congr fun _ =>
    SuppressionStore.readText_add fun file hf => (h file hf).2 source hm

end Add

/-- A suppression that is taken from a marker goes into the store in both passes. -/
theorem Matches.promote (h : c.Matches skipping plain) (found : InlineSuppression) :
    c.Matches (skipping.promote found) (plain.promote found) := by
  cases hs : skipping.formatter.store with
  | none =>
    have hp : plain.formatter.store = none := h.store.symm.trans hs
    simpa only [Pass.promote, hs, hp] using h
  | some store =>
    obtain ⟨log, hl⟩ := skipping.store_promote hs found
    obtain ⟨log', hl'⟩ := plain.store_promote (h.store.symm.trans hs) found
    have hb := h.backing store hs
    have hb' := hb.of_agree h.agree
    obtain ⟨hstore, hagree⟩ := store.add_agree found.hash found.fileName found.comment h.agree
      fun file hf => (hb file hf).1
    rw [hl, hl', ← hstore]
    exact { h with
      store := rfl
      agree := hagree
      sources := h.sources.congr fun source hm => hb.fetch_add _ _ _ hm
      sameSources := h.sameSources.congr fun source hm => hb'.fetch_add _ _ _ hm
      backing := by
        rintro _ ⟨⟩
        exact hb.add _ _ _ }

/-- Looking up the source of an entry gives the same marker in both passes. -/
theorem Matches.lookedUp (h : c.Matches skipping plain) {finding : Finding} {entry : String}
    (he : c.files.get? finding.anchor.1.file = some entry) :
    plain.marker? finding entry = skipping.marker? finding entry ∧
      c.Matches (skipping.lookedUp entry) (plain.lookedUp entry) := by
  obtain ⟨hfile, hafter⟩ := h.file (resolve_mem (FileTable.mem_paths_of_get? he))
  simp only [Pass.marker?, Pass.lookedUp, inlineSuppression, h.enricher, h.sameEnricher, hfile]
  exact ⟨trivial, hafter⟩

/-- A finding whose file is not excluded fares the same in both passes. -/
theorem Matches.judge (h : c.Matches skipping plain) {finding : Finding}
    (hk : ∀ displayFile ∈ finding.displayFile? c.files, c.policy displayFile = false) :
    (skipping.judge c.files finding).1 = (plain.judge c.files finding).1 ∧
      c.Matches (skipping.judge c.files finding).2 (plain.judge c.files finding).2 := by
  refine skipping.judge_rel plain c.files finding h (fun displayFile hd => ?_)
    (fun displayFile => ?_) (fun entry he => h.lookedUp he) (fun entry => { h with })
    fun first second found h => h.promote found
  · rw [Pass.excludes, Pass.excludes, h.policy, h.noPolicy, Option.any_none, Option.any_some,
      hk displayFile hd]
  · rw [Pass.suppresses, Pass.suppresses, h.store]

/-- A finding whose file is excluded changes nothing but the log. -/
theorem Matches.judge_of_excluded (h : c.Matches skipping plain) {finding : Finding}
    (hx : ∀ displayFile ∈ finding.displayFile? c.files, c.policy displayFile = true) :
    (∀ entry displayFile, (skipping.judge c.files finding).1 ≠ .shown entry displayFile) ∧
      c.Matches (skipping.judge c.files finding).2 plain := by
  cases hd : finding.displayFile? c.files with
  | none =>
    rw [Pass.judge_of_outsideTable hd]
    exact ⟨fun _ _ => Verdict.noConfusion, { h with }⟩
  | some displayFile =>
    have hskip : skipping.excludes displayFile = true := by
      rw [Pass.excludes, h.policy, Option.any_some, hx displayFile hd]
    rw [Pass.judge_of_excluded hd hskip]
    exact ⟨fun _ _ => Verdict.noConfusion, h⟩

/-! ## Reports -/

theorem Matches.finding (h : c.Matches skipping plain) {finding : Finding}
    (hk : ∀ displayFile ∈ finding.displayFile? c.files, c.policy displayFile = false) :
    ((Writing.finding c.files finding).run skipping).1 =
        ((Writing.finding c.files finding).run plain).1 ∧
      c.Matches ((Writing.finding c.files finding).run skipping).2
        ((Writing.finding c.files finding).run plain).2 := by
  obtain ⟨hverdict, hafter⟩ := h.judge hk
  rcases hj : skipping.judge c.files finding with ⟨verdict, after⟩
  rcases hj' : plain.judge c.files finding with ⟨verdict', after'⟩
  rw [hj, hj'] at hverdict hafter
  obtain rfl : verdict = verdict' := hverdict
  cases verdict with
  | shown entry displayFile =>
    have hjudged := judged c.files skipping finding
    rw [hj] at hjudged
    have he : entry ∈ c.files.paths := FileTable.mem_paths_of_get? hjudged.of_shown.2
    rw [Writing.run_finding_of_shown hj, Writing.run_finding_of_shown hj', hafter.severities,
      hafter.stats]
    exact (Writing.scripted_block he finding _).preserves _ _ { hafter with stats := rfl }
  | outsideTable | excluded | suppressed | withoutAnchor | marked =>
    rw [Writing.run_finding_of_not_shown (by simp [hj]),
      Writing.run_finding_of_not_shown (by simp [hj']), hj, hj']
    exact ⟨rfl, hafter⟩

/-- Whether a finding stays when its own file is judged. -/
def keeps (c : Comparison) (finding : Finding) : Bool :=
  !c.policy.excludes c.files finding.primaryFile

/-- Writing findings by the policy is writing those that stay. -/
theorem Matches.findings (h : c.Matches skipping plain) {findings : List Finding}
    (hj : c.policy.JudgesAlike c.files findings) :
    ((findings.forM (Writing.finding c.files)).run skipping).1 =
        (((findings.filter c.keeps).forM (Writing.finding c.files)).run plain).1 ∧
      c.Matches ((findings.forM (Writing.finding c.files)).run skipping).2
        (((findings.filter c.keeps).forM (Writing.finding c.files)).run plain).2 := by
  induction findings generalizing skipping plain with
  | nil => exact ⟨rfl, h⟩
  | cons finding rest ih =>
    have hfirst := hj finding List.mem_cons_self
    have hrest : c.policy.JudgesAlike c.files rest :=
      fun other hm => hj other (List.mem_cons_of_mem _ hm)
    cases hx : c.policy.excludes c.files finding.primaryFile with
    | true =>
      obtain ⟨hne, hafter⟩ := h.judge_of_excluded fun displayFile hd =>
        (hfirst displayFile hd).symm.trans hx
      rw [List.filter_cons_of_neg (by simp [keeps, hx]), Writing.run_forM_cons,
        Writing.run_finding_of_not_shown hne]
      exact ih hafter hrest
    | false =>
      have hfinding := h.finding fun displayFile hd => (hfirst displayFile hd).symm.trans hx
      rw [List.filter_cons_of_pos (by simp [keeps, hx])]
      exact Writing.bind_rel hfinding fun _ _ _ hafter => ih hafter hrest

/-- Both reports end with the same line and the same counts. -/
theorem Matches.all (h : c.Matches skipping plain) {findings : List Finding}
    (hj : c.policy.JudgesAlike c.files findings) (analyzed : Option String) :
    ((Writing.all c.files findings analyzed).run skipping).1 =
        ((Writing.all c.files (findings.filter c.keeps) analyzed).run plain).1 ∧
      c.Matches ((Writing.all c.files findings analyzed).run skipping).2
        ((Writing.all c.files (findings.filter c.keeps) analyzed).run plain).2 := by
  have hlast : Writing.Preserves c.Matches (do
      let stats := (← get).stats
      Writing.emit (Layout.summary stats.reportCount analyzed)
      pure stats) :=
    .get_bind (fun first second h => by rw [h.stats]) fun _ =>
      .bind (Writing.preserves_emit _) fun _ => .pure _
  exact Writing.bind_rel (h.findings hj) fun _ => hlast

end Comparison

end Findings
