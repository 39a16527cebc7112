import Findings.Proofs.FilePath
import Findings.Proofs.Report.Writing
import Findings.Proofs.Suppression.Agree
import Findings.Proofs.Suppression.Carry

/-!
# Suppressions taken from markers

A finding that a marker in its source applies to is left out of the report, and its suppression goes
into the store under the name of the file that the marker stands in: the file of the last step. The
store is asked for a finding under another name, that of the file of the last event.

* `Promotion`, `promotions`: the findings whose suppressions went into the store.
* `store_findings`: the records of the store are carried on by what goes into it.
* `SeesPromotions`: the store covers these findings where it is asked for them.
* `seesPromotions_iff`: when it does, and `not_seesPromotions_stepsIn`, that it may not.
-/

namespace Findings

open Suppression

/-- A finding whose suppression was taken from a marker in its source into the store. -/
structure Promotion where
  finding : Finding
  /-- The entry under which the store is asked for the finding. -/
  displayFile : String
  /-- The path of the source that the marker stands in. -/
  source : String
  comment : String

namespace Promotion

/-- The record that is added to the store. -/
def record (promotion : Promotion) : Suppression :=
  .ofComment promotion.finding.identityHash (FilePath.basename promotion.source) promotion.comment

theorem lasting {promoted : List Promotion} (h : ∀ p ∈ promoted, p.record.Storable) :
    SuppressionStore.Lasting (promoted.map record) := by
  intro s hs
  obtain ⟨p, hp, rfl⟩ := List.mem_map.1 hs
  obtain ⟨hne, hhash, hname⟩ := h p hp
  exact ⟨oneLine_iff.2 ⟨hhash.2.1, hname.2.1, SuppressionStore.newline_not_mem_ofComment _ _ _⟩,
    hne, hhash, hname⟩

end Promotion

namespace Pass

variable {pass : Pass} {store : SuppressionStore} {files : FileTable} {finding : Finding}

/-- What judging a finding takes into the store. -/
def promotion? (pass : Pass) (files : FileTable) (finding : Finding) : Option Promotion := do
  let displayFile ← finding.displayFile? files
  let entry ← files.get? finding.anchor.1.file
  let source := pass.formatter.enricher.resolve entry
  let found ← (inlineSuppression pass.formatter.sources pass.fs source
    finding.anchor.1.line.toNat finding.identityHash finding.checkerName).1
  let store ← pass.formatter.store
  if (pass.judge files finding).1 = .marked ∧
      (store.add pass.fs found.hash found.fileName found.comment).1.isOk then
    some { finding, displayFile, source, comment := found.comment }
  else none

/-- Only a finding that a marker applies to is promoted. -/
theorem promotion?_of_ne_marked (h : (pass.judge files finding).1 ≠ .marked) :
    pass.promotion? files finding = none := by
  simp only [promotion?, h, false_and, if_false]
  simp

theorem of_promotion? {promotion : Promotion}
    (h : pass.promotion? files finding = some promotion) :
    promotion.finding = finding ∧ finding.displayFile? files = some promotion.displayFile ∧
      (files.get? finding.anchor.1.file).map pass.formatter.enricher.resolve =
        some promotion.source := by
  simp only [promotion?, Option.bind_eq_bind, Option.bind_eq_some_iff] at h
  obtain ⟨displayFile, hd, entry, he, found, -, store, -, h⟩ := h
  split at h
  · obtain rfl := Option.some.inj h
    exact ⟨rfl, hd, by rw [he]; rfl⟩
  · cases h

/-- What judging does to the store: nothing, or the suppression that a marker asks for is added. -/
theorem store_judge (files : FileTable) (finding : Finding)
    (hs : pass.formatter.store = some store) :
    ((pass.judge files finding).2.formatter.store = some store ∧
        (pass.judge files finding).2.fs = pass.fs ∧ pass.promotion? files finding = none) ∨
      ∃ displayFile source comment,
        store.isSuppressed finding.identityHash displayFile = false ∧
        (pass.judge files finding).2.formatter.store =
          some (store.add pass.fs finding.identityHash (FilePath.basename source) comment).2.1 ∧
        (pass.judge files finding).2.fs =
          (store.add pass.fs finding.identityHash (FilePath.basename source) comment).2.2 ∧
        pass.promotion? files finding =
          if (store.add pass.fs finding.identityHash (FilePath.basename source) comment).1.isOk then
            some { finding, displayFile, source, comment }
          else none := by
  obtain ⟨hne, earlier, -, log, hj⟩ | ⟨displayFile, entry, found, hd, hsup, he, hm, hj⟩ :=
    judge_cases pass files finding
  · rw [hj]
    exact .inl ⟨hs, rfl, promotion?_of_ne_marked hne⟩
  · obtain ⟨hhash, hname⟩ := inlineSuppression_eq_some hm
    obtain ⟨log, hp⟩ := store_promote (pass.lookedUp entry) hs found
    rw [suppresses, hs] at hsup
    rw [marker?] at hm
    refine .inr ⟨displayFile, pass.formatter.enricher.resolve entry, found.comment, hsup, ?_⟩
    have hpromotion : pass.promotion? files finding =
        if (store.add pass.fs found.hash found.fileName found.comment).1.isOk then
          some {
            finding, displayFile, source := pass.formatter.enricher.resolve entry
            comment := found.comment }
        else none := by
      simp [promotion?, hd, he, hm, hs, hj]
    rw [hpromotion, hj, hp, hhash, hname]
    exact ⟨rfl, rfl, rfl⟩

end Pass

/-! ## Whole reports -/

/-- The suppressions that findings take into the store, one after the other, up to a finding that
cannot be written. -/
def promotions (files : FileTable) : Pass → List Finding → List Promotion
  | _, [] => []
  | pass, finding :: rest =>
    (pass.promotion? files finding).toList ++
      match (Writing.finding files finding).run pass with
      | (.ok (), after) => promotions files after rest
      | (.error _, _) => []

namespace Formatter

open SuppressionStore

variable {file : String} {store : SuppressionStore} (files : FileTable) (pass : Pass)

/-- Reading the store and the files of a pass gives the same whatever is written. -/
theorem unwritten_store_fs :
    Writing.Unwritten fun pass : Pass => (pass.formatter.store, pass.fs) where
  sink _ _ := rfl
  sources _ _ := rfl

/-- One finding carries the records of the store on by what it takes into it. -/
theorem store_finding (hb : Backed file store pass.fs) (hc : pass.fs.Completes file)
    (hs : pass.formatter.store = some store) (finding : Finding) :
    ∃ after, ((Writing.finding files finding).run pass).2.formatter.store = some after ∧
      Backed file after ((Writing.finding files finding).run pass).2.fs ∧
      ((Writing.finding files finding).run pass).2.fs.Completes file ∧
      after.records = ((pass.promotion? files finding).toList.map Promotion.record).foldl carry
        store.records ∧
      ∀ p ∈ pass.promotion? files finding,
        store.isSuppressed p.finding.identityHash p.displayFile = false := by
  have hview := Writing.view_finding unwritten_store_fs (fun _ _ => rfl) files finding pass
  simp only [Prod.mk.injEq] at hview
  rw [hview.1, hview.2]
  obtain ⟨hstore, hfs, hp⟩ | ⟨displayFile, source, comment, hsup, hstore, hfs, hp⟩ :=
    Pass.store_judge files finding hs
  · refine ⟨store, hstore, hfs ▸ hb, hfs ▸ hc, ?_, ?_⟩
    · rw [hp]
      rfl
    · simp [hp]
  · obtain ⟨hback, hrecords⟩ :=
      hb.add finding.identityHash (FilePath.basename source) comment hc
    refine ⟨_, hstore, hfs ▸ hback, hfs ▸ completes_add hc, ?_, ?_⟩
    · rw [hrecords, hp]
      cases (store.add pass.fs finding.identityHash (FilePath.basename source) comment).1 with
      | ok =>
        rw [FilePath.basename_basename]
        rfl
      | error => rfl
    · intro p hmem
      rw [hp] at hmem
      split at hmem
      · obtain rfl := Option.some.inj hmem
        exact hsup
      · cases hmem

/-- All findings carry the records of the store on by what they take into it. -/
theorem store_findings (hb : Backed file store pass.fs) (hc : pass.fs.Completes file)
    (hs : pass.formatter.store = some store) (findings : List Finding) :
    ∃ after, ((findings.forM (Writing.finding files)).run pass).2.formatter.store = some after ∧
      after.records = ((promotions files pass findings).map Promotion.record).foldl carry
        store.records := by
  induction findings generalizing pass store with
  | nil => exact ⟨store, hs, rfl⟩
  | cons finding rest ih =>
    obtain ⟨next, hstore, hback, hcompletes, hrecords, -⟩ :=
      store_finding files pass hb hc hs finding
    rw [Writing.run_forM_cons, promotions, List.map_append, List.foldl_append, ← hrecords]
    revert hstore hback hcompletes
    rcases (Writing.finding files finding).run pass with ⟨e | u, after⟩
    · exact fun hstore _ _ => ⟨next, hstore, rfl⟩
    · exact fun hstore hback hcompletes => ih after hback hcompletes hstore

/-- A promotion of a report is that of the first finding, or one of the others after it was
written. -/
theorem mem_promotions_cons {files : FileTable} {pass : Pass} {finding : Finding}
    {rest : List Finding} {p : Promotion} :
    p ∈ promotions files pass (finding :: rest) ↔ p ∈ pass.promotion? files finding ∨
      ∃ after, (Writing.finding files finding).run pass = (.ok (), after) ∧
        p ∈ promotions files after rest := by
  rw [promotions, List.mem_append, Option.mem_toList]
  refine or_congr_right ?_
  rcases (Writing.finding files finding).run pass with ⟨e | u, after⟩
  · constructor
    · exact fun hp => absurd hp List.not_mem_nil
    · rintro ⟨_, hrun, -⟩
      cases hrun
  · constructor
    · exact fun hp => ⟨after, rfl, hp⟩
    · rintro ⟨_, hrun, hp⟩
      cases hrun
      exact hp

/-- A finding whose suppression is taken into the store was not suppressed before, not even when the
report began, if what is taken lasts. -/
theorem isSuppressed_of_mem_promotions (hb : Backed file store pass.fs)
    (hc : pass.fs.Completes file) (hs : pass.formatter.store = some store) (findings : List Finding)
    (hl : Lasting store.records)
    (ha : ∀ p ∈ promotions files pass findings, p.record.Storable) :
    ∀ p ∈ promotions files pass findings,
      store.isSuppressed p.finding.identityHash p.displayFile = false := by
  induction findings generalizing pass store with
  | nil => exact fun p hp => absurd hp List.not_mem_nil
  | cons finding rest ih =>
    obtain ⟨next, hstore, hback, hcompletes, hrecords, hnew⟩ :=
      store_finding files pass hb hc hs finding
    intro p hp
    rcases mem_promotions_cons.1 hp with hp | ⟨after, hrun, hp⟩
    · exact hnew p hp
    · rw [hrun] at hstore hback hcompletes
      have hfirst : Lasting ((pass.promotion? files finding).toList.map Promotion.record) :=
        Promotion.lasting fun q hq => ha q (mem_promotions_cons.2 (.inl (Option.mem_toList.1 hq)))
      -- What the store had before, it still has after the first finding.
      have hcarried := any_foldl_carry hl hfirst p.finding.identityHash
        (FilePath.basename p.displayFile)
      have hlast := hl.foldl_carry hfirst
      rw [← hrecords] at hcarried hlast
      have hnone := ih after hback hcompletes hstore hlast
        (fun q hq => ha q (mem_promotions_cons.2 (.inr ⟨after, hrun, hq⟩))) p hp
      rw [isSuppressed, hcarried, Bool.or_eq_false_iff] at hnone
      exact hnone.1

/-- What a promotion is about: a finding of the report, the file that the store is asked for it
with, and the source of its anchor. -/
theorem of_mem_promotions (findings : List Finding) :
    ∀ p ∈ promotions files pass findings, p.finding ∈ findings ∧
      p.finding.displayFile? files = some p.displayFile ∧
      (files.get? p.finding.anchor.1.file).map pass.formatter.enricher.resolve = some p.source := by
  induction findings generalizing pass with
  | nil => exact fun p hp => absurd hp List.not_mem_nil
  | cons finding rest ih =>
    intro p hp
    rcases mem_promotions_cons.1 hp with hp | ⟨after, hrun, hp⟩
    · obtain ⟨hf, hd, hsource⟩ := Pass.of_promotion? hp
      rw [hf]
      exact ⟨List.mem_cons_self, hd, hsource⟩
    · have hv : Writing.Unwritten fun pass : Pass => pass.formatter.enricher :=
        ⟨fun _ _ => rfl, fun _ _ => rfl⟩
      have henricher := (Writing.view_finding hv (fun _ _ => rfl) files finding pass).trans
        (Pass.enricher_judge pass files finding)
      rw [hrun] at henricher
      obtain ⟨hm, hd, hsource⟩ := ih after p hp
      exact ⟨List.mem_cons_of_mem _ hm, hd, henricher ▸ hsource⟩

variable (formatter : Formatter) (fs : FileSystem) (sink : Sink) (findings : List Finding)
  (analyzed : Option String)

/-- Writing the last line leaves the store alone. -/
theorem store_writeReport :
    (formatter.writeReport fs sink files findings analyzed).2.formatter.store =
      ((findings.forM (Writing.finding files)).run
        { formatter, fs, sink }).2.formatter.store := by
  have hv : Writing.Unwritten fun pass : Pass => pass.formatter.store :=
    ⟨fun _ _ => rfl, fun _ _ => rfl⟩
  exact Writing.view_all hv files findings analyzed { formatter, fs, sink }

/-- After a report, the store covers every finding whose suppression was taken into it, in the file
that the store is asked for the finding with. -/
def SeesPromotions (formatter : Formatter) (fs : FileSystem) (sink : Sink) (files : FileTable)
    (findings : List Finding) (analyzed : Option String) : Prop :=
  ∀ p ∈ promotions files { formatter, fs, sink } findings,
    (formatter.writeReport fs sink files findings analyzed).2.formatter.store.any
      (·.isSuppressed p.finding.identityHash p.displayFile) = true

/-- If no write of its file fails, the records of the store after a report are those it had, carried
on by what was taken into it from markers, and it covers the findings these were for iff the records
that come out do. If all records are storable, that is so iff the marker of each such finding, or
that of another one with the same hash, stands in a file with the name of the file that the store is
asked with. -/
theorem seesPromotions_iff (ho : openStore fs (some file) true = .ok store)
    (hc : fs.Completes file) (hs : formatter.store = some store) :
    let promoted := promotions files { formatter, fs, sink } findings
    let records := (promoted.map Promotion.record).foldl carry store.records
    (∀ p ∈ promoted, p.finding ∈ findings ∧ p.finding.displayFile? files = some p.displayFile ∧
        (files.get? p.finding.anchor.1.file).map formatter.enricher.resolve = some p.source) ∧
      (formatter.SeesPromotions fs sink files findings analyzed ↔ ∀ p ∈ promoted,
        records.any (covers · p.finding.identityHash (FilePath.basename p.displayFile)) = true) ∧
      ((∀ s ∈ store.records, s.Storable) → (∀ p ∈ promoted, p.record.Storable) →
        (formatter.SeesPromotions fs sink files findings analyzed ↔ ∀ p ∈ promoted, ∃ q ∈ promoted,
          q.finding.identityHash = p.finding.identityHash ∧
            FilePath.basename q.source = FilePath.basename p.displayFile)) := by
  intro promoted records
  obtain ⟨after, hafter, hrecords⟩ := store_findings files { formatter, fs, sink }
    (.loaded ho) hc hs findings
  have hsees : formatter.SeesPromotions fs sink files findings analyzed ↔ ∀ p ∈ promoted,
      records.any (covers · p.finding.identityHash (FilePath.basename p.displayFile)) = true := by
    unfold SeesPromotions
    simp only [store_writeReport, hafter, Option.any_some, isSuppressed, hrecords]
    rfl
  refine ⟨of_mem_promotions files _ findings, hsees, fun hstored hpromoted => ?_⟩
  have hl : Lasting store.records := fun s hm =>
    ⟨SuppressionFile.oneLine_of_load (openStore_eq_ok ho).1 s hm, hstored s hm⟩
  have ha : Lasting (promoted.map Promotion.record) := Promotion.lasting hpromoted
  have hfresh := isSuppressed_of_mem_promotions files { formatter, fs, sink }
    (.loaded ho) hc hs findings hl hpromoted
  rw [hsees]
  refine forall₂_congr fun p hp => ?_
  have hold : store.records.any
      (covers · p.finding.identityHash (FilePath.basename p.displayFile)) = false := hfresh p hp
  rw [any_foldl_carry hl ha, hold, Bool.false_or, List.any_map, List.any_eq_true]
  simp only [Function.comp_apply, covers_iff]
  rfl

/-- A finding with its last event in one file and its last step in another. -/
def stepsIn (event last : FileIndex) : Finding where
  checkerName := "k"
  identityHash := "g"
  location := { line := 1, col := 1, file := event }
  path := [
    { kind := .event, location := some { line := 1, col := 1, file := event } },
    { kind := .control, location := some { line := 1, col := 1, file := last } }]

/-- A formatter over the store with one record, with two sources that have a marker each. -/
def twoMarkers : Formatter where
  store := some oneRecordStore
  sources := (SourceCache.empty.add "a.c" "int a; // quell_suppress [all]\n").add "b.c"
    "int b; // quell_suppress [all]\n"

/-- The store is asked for the first finding with `a.c`, and only what is taken from the marker of
the second finding covers it there. -/
theorem seesPromotions_stepsIn :
    openStore oneRecordFiles (some "s") true = .ok oneRecordStore ∧
      oneRecordFiles.Completes "s" ∧
      twoMarkers.SeesPromotions oneRecordFiles {} ⟨["a.c", "b.c"]⟩ [stepsIn 0 1, stepsIn 0 0]
        none := by
  have hc := accepts_oneRecordFiles.completes
  have h := seesPromotions_iff ⟨["a.c", "b.c"]⟩ twoMarkers oneRecordFiles {}
    [stepsIn 0 1, stepsIn 0 0] none openStore_oneRecordFiles hc rfl
  exact ⟨openStore_oneRecordFiles, hc,
    (h.2.2 (by decide) (by decide +kernel)).2 (by decide +kernel)⟩

/-- Without the second finding, the first one is taken into the store under `b.c` and not covered
under `a.c`. -/
theorem not_seesPromotions_stepsIn :
    openStore oneRecordFiles (some "s") true = .ok oneRecordStore ∧
      ¬ twoMarkers.SeesPromotions oneRecordFiles {} ⟨["a.c", "b.c"]⟩ [stepsIn 0 1] none := by
  refine ⟨openStore_oneRecordFiles, fun h => ?_⟩
  have hany : ∃ p ∈ promotions ⟨["a.c", "b.c"]⟩
      { formatter := twoMarkers, fs := oneRecordFiles, sink := {} } [stepsIn 0 1],
      p.finding.identityHash = "g" ∧ p.displayFile = "a.c" := by
    decide +kernel
  obtain ⟨p, hm, hhash, hfile⟩ := hany
  have hs := h p hm
  rw [hhash, hfile] at hs
  have hnone : (twoMarkers.writeReport oneRecordFiles {} ⟨["a.c", "b.c"]⟩ [stepsIn 0 1]
      none).2.formatter.store.any (·.isSuppressed "g" "a.c") = false := by
    decide +kernel
  rw [hnone] at hs
  cases hs

end Formatter

end Findings
