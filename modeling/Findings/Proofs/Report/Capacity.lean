import Findings.Proofs.Report.Promotion
import Findings.Proofs.Report.Turns

/-!
# Reports on sinks that fill up

A sink that takes only so many bytes gets the beginning of the report that any other sink gets, and
the report fails if that is not all of it. What was taken into the store until then is what the
whole report had taken into it after the finding that no longer fits.

* `Sink.fits_iff`, `Sink.write_capacity`: what a sink with a capacity takes.
* `StopsAfter`, `exists_run_take`: how far the store and the files go with the findings.
* `cutShort_writeReport`: what becomes of a whole report.
-/

namespace Findings

namespace Sink

variable {sink : Sink} {limit : Nat}

/-- A text fits if it does so together with all that was written before. -/
theorem fits_iff (hc : sink.capacity = some limit) (hw : sink.written.size ≤ limit)
    (text : String) :
    (sink.write text).1 = true ↔ sink.written.size + text.toUTF8.size ≤ limit := by
  simp only [write, room, hc, decide_eq_true_eq]
  omega

theorem write_capacity (limit : Nat) (text : String) :
    ({ capacity := some limit } : Sink).write text =
      (decide (text.toUTF8.size ≤ limit),
        { written := text.toUTF8.extract 0 (min limit text.toUTF8.size),
          capacity := some limit }) := by
  have hroom : ({ capacity := some limit } : Sink).room text.toUTF8.size =
      min limit text.toUTF8.size :=
    Nat.min_comm _ _
  have hfits : decide (min limit text.toUTF8.size = text.toUTF8.size) =
      decide (text.toUTF8.size ≤ limit) :=
    decide_eq_decide.2 (by omega)
  rw [write, hroom, hfits, ByteArray.empty_append]

theorem written_write_unlimited (h : sink.capacity = none) (text : String) :
    (sink.write text).2.written = sink.written ++ text.toUTF8 := by
  rw [write_of_fits (write_fst_of_unlimited h text)]

end Sink

/-! ## Findings -/

namespace Writing

variable (files : FileTable)

/-- What judging a finding does to the store and to the files does not depend on the sink. -/
theorem store_fs_finding (pass : Pass) (finding : Finding) (sink : Sink) :
    let after := ((Writing.finding files finding).run { pass with sink }).2
    (after.formatter.store, after.fs) =
      ((pass.judge files finding).2.formatter.store, (pass.judge files finding).2.fs) := by
  intro after
  have hview := view_finding Formatter.unwritten_store_fs (fun _ _ => rfl) files finding
    { pass with sink }
  rwa [judge_sink files pass finding sink] at hview

/-- Whatever becomes of a finding, there is a text that is written for it. -/
theorem exists_writes_finding (pass : Pass) (finding : Finding) :
    ∃ text next, Writes (Writing.finding files finding) pass text () next := by
  obtain ⟨earlier, -, ⟨-, log, h⟩ | ⟨-, next, h, -⟩⟩ := writes_finding files pass finding
  · exact ⟨_, _, (h _ (SourceCache.agrees_known _ _)).2⟩
  · exact ⟨_, _, (h _ (SourceCache.agrees_known _ _)).2⟩

section Writes

variable {files} {pass next : Pass} {finding : Finding} {text : String}
  (h : Writes (Writing.finding files finding) pass text () next) {sink : Sink}
include h

/-- Where the text of a finding fits, the others come after it. -/
theorem Writes.forM_of_fits (hs : (sink.write text).1 = true) (rest : List Finding) :
    ((finding :: rest).forM (Writing.finding files)).run { pass with sink } =
      (rest.forM (Writing.finding files)).run { next with sink := (sink.write text).2 } := by
  rw [run_forM_cons, h.fits sink hs]

/-- Where it does not fit, it is the last one that is judged. -/
theorem Writes.forM_of_full (hs : (sink.write text).1 = false) (rest : List Finding) :
    ((finding :: rest).forM (Writing.finding files)).run { pass with sink } =
      (Writing.finding files finding).run { pass with sink } := by
  obtain ⟨stopped, hstopped⟩ := h.full sink hs
  rw [run_forM_cons, hstopped]

end Writes

/-- A pass that is cut short is left with the store and the files of the first pass that is over the
limit, or of the last one. `after n` is the pass after `n` findings of `length`. -/
structure StopsAfter (after : Nat → Pass) (cut : Pass) (limit length n : Nat) : Prop where
  le : n ≤ length
  before : ∀ m < n, (after m).sink.written.size ≤ limit
  beyond : n < length → limit < (after n).sink.written.size
  same : (cut.formatter.store, cut.fs) = ((after n).formatter.store, (after n).fs)

/-- A first finding that fits is one more before the limit. -/
theorem StopsAfter.succ {after rest : Nat → Pass} {cut : Pass} {limit length n : Nat}
    (h : StopsAfter rest cut limit length n) (hzero : (after 0).sink.written.size ≤ limit)
    (hsucc : ∀ n, after (n + 1) = rest n) : StopsAfter after cut limit (length + 1) (n + 1) where
  le := Nat.succ_le_succ h.le
  before
    | 0, _ => hzero
    | m + 1, hm => hsucc m ▸ h.before m (Nat.lt_of_succ_lt_succ hm)
  beyond hlt := hsucc n ▸ h.beyond (Nat.lt_of_succ_lt_succ hlt)
  same := hsucc n ▸ h.same

/-- On a sink with a capacity, the store and the files go as far as they do on one without after
the first finding that does not fit, or after all findings. -/
theorem exists_run_take {limit : Nat} (pass : Pass) (limited free : Sink)
    (hc : limited.capacity = some limit) (hle : limited.written.size ≤ limit)
    (hf : free.capacity = none) (hw : free.written.size = limited.written.size)
    (findings : List Finding) :
    ∃ n, StopsAfter
      (fun n => (((findings.take n).forM (Writing.finding files)).run { pass with sink := free }).2)
      ((findings.forM (Writing.finding files)).run { pass with sink := limited }).2
      limit findings.length n := by
  induction findings generalizing pass limited free with
  | nil => exact ⟨0, Nat.le_refl 0, nofun, nofun, rfl⟩
  | cons finding rest ih =>
    obtain ⟨text, next, hfinding⟩ := exists_writes_finding files pass finding
    have hfree := Sink.write_fst_of_unlimited hf text
    have hsize := congrArg ByteArray.size (Sink.written_write_unlimited hf text)
    rw [ByteArray.size_append, hw] at hsize
    have hsucc (n : Nat) := hfinding.forM_of_fits hfree (rest.take n)
    cases hfits : (limited.write text).1 with
    | true =>
      have hfits' := (Sink.fits_iff hc hle text).1 hfits
      have hwritten := congrArg (fun sink => sink.written.size) (Sink.write_of_fits hfits)
      simp only [ByteArray.size_append] at hwritten
      obtain ⟨n, hn⟩ :=
        ih next (limited.write text).2 (free.write text).2 hc (by omega) hf (by omega)
      rw [hfinding.forM_of_fits hfits rest]
      exact ⟨n + 1, hn.succ (hw ▸ hle) fun n => congrArg Prod.snd (hsucc n)⟩
    | false =>
      have hover : ¬ limited.written.size + text.toUTF8.size ≤ limit := fun h => by
        rw [(Sink.fits_iff hc hle text).2 h] at hfits
        cases hfits
      have hone : (((finding :: rest).take 1).forM (Writing.finding files)).run
            { pass with sink := free } =
          (Writing.finding files finding).run { pass with sink := free } :=
        (hsucc 0).trans (hfinding.fits free hfree).symm
      rw [hfinding.forM_of_full hfits rest]
      refine ⟨1, Nat.le_add_left 1 _, ?_, fun _ => ?_, ?_⟩
      · intro m hm
        obtain rfl : m = 0 := by omega
        exact hw ▸ hle
      · rw [hone, hfinding.fits free hfree]
        exact hsize ▸ Nat.lt_of_not_le hover
      · rw [hone]
        exact (store_fs_finding files pass finding limited).trans
          (store_fs_finding files pass finding free).symm

end Writing

/-! ## Reports -/

namespace Formatter

variable (formatter : Formatter) (fs : FileSystem) (files : FileTable) (findings : List Finding)
  (analyzed : Option String)

/-- The pass of a report after its first findings, on a sink that takes any number of bytes. -/
def afterFirst (n : Nat) : Pass :=
  (((findings.take n).forM (Writing.finding files)).run { formatter, fs, sink := {} }).2

/-- A sink that takes only `limit` bytes cuts a report short, and does nothing else to it. -/
structure CutShort (limit : Nat) : Prop where
  /-- Where there is room for everything, a report does not fail. -/
  finishes : ∃ stats, (formatter.writeReport fs {} files findings analyzed).1 = .ok stats
  /-- As much of the report arrives as there is room for. -/
  delivers :
    let whole := (formatter.writeReport fs {} files findings analyzed).2.sink.written
    (formatter.writeReport fs { capacity := some limit } files findings analyzed).2.sink.written =
      whole.extract 0 (min limit whole.size)
  /-- The report fails iff that is not all of it. -/
  fails :
    let whole := formatter.writeReport fs {} files findings analyzed
    (formatter.writeReport fs { capacity := some limit } files findings analyzed).1 =
      if whole.2.sink.written.size ≤ limit then whole.1 else .error (.output Sink.fullMessage)
  /-- The store and the files are left as they are after the first finding that does not fit, or
  after all of them. -/
  leaves :
    let cut := (formatter.writeReport fs { capacity := some limit } files findings analyzed).2
    let after := formatter.afterFirst fs files findings
    ∃ n ≤ findings.length,
      (∀ m < n, (after m).sink.written.size ≤ limit) ∧
      (n < findings.length → limit < (after n).sink.written.size) ∧
      cut.fs = (after n).fs ∧ cut.formatter.store = (after n).formatter.store

/-- A report has one text and one result, whatever the sink takes of them. -/
theorem exists_reports : ∃ text stats, formatter.Reports fs files findings analyzed text stats := by
  obtain ⟨lookup, after, hw⟩ :=
    Writing.writes_shown files { formatter, fs, sink := {} } rfl rfl findings analyzed
  exact ⟨_, _, hw.outcome⟩

/-- Whatever the findings are, and however little a sink takes of their report, it is cut short and
nothing else. -/
theorem cutShort_writeReport (limit : Nat) :
    formatter.CutShort fs files findings analyzed limit := by
  obtain ⟨text, stats, hreports⟩ := formatter.exists_reports fs files findings analyzed
  obtain ⟨hresult, hsink⟩ := hreports {}
  obtain ⟨hcut, hsink'⟩ := hreports { capacity := some limit }
  rw [if_pos (Sink.write_fst_of_unlimited rfl text)] at hresult
  have hwhole := (congrArg Sink.written hsink).trans (Sink.written_write_unlimited rfl text)
  rw [ByteArray.empty_append] at hwhole
  rw [Sink.write_capacity] at hcut hsink'
  refine ⟨⟨stats, hresult⟩, ?_, ?_, ?_⟩
  · rw [hwhole, hsink']
  · dsimp only
    rw [hwhole, hresult, hcut]
    simp only [decide_eq_true_eq]
  · obtain ⟨n, hn, hbefore, hat, hsame⟩ := Writing.exists_run_take files
      { formatter, fs, sink := {} } { capacity := some limit } {} rfl (Nat.zero_le limit) rfl rfl
      findings
    -- The last line changes neither the store nor the files.
    have hlast := Writing.view_all unwritten_store_fs files findings analyzed
      { formatter, fs, sink := { capacity := some limit } }
    obtain ⟨hstore, hfs⟩ := Prod.mk.inj (hlast.trans hsame)
    exact ⟨n, hn, hbefore, hat, hfs, hstore⟩

end Formatter

end Findings
