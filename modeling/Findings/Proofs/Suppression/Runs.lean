import Findings.Proofs.Suppression.Agree
import Findings.Proofs.Suppression.Addition
import Mathlib.Data.List.Forall2
import Mathlib.Data.List.Infix

/-!
# Runs of a store

Every change of a store reads the whole file, edits the records, renders all of them and reads them
again. Over a run of such calls the store is a list of records all the same: what the text can not
hold is kept out by the conditions on the first file and on the arguments.

* `Held`: the file may be written, holds the records, and would hold them again if they were
  rendered. `Held.update`: an update by records of that kind keeps it so.
* `Call.run_of_held`: one call does to store and file what it does to a list.
* `forall₂_shows`: so does every call of a run.
-/

namespace Findings.SuppressionStore

/-! ## Calls, on stores and on lists -/

/-- A call that changes the records of a store or reads them again. -/
inductive Call where
  | add (hash path comment : String)
  | remove (hash path : String)
  | reload
  deriving DecidableEq, Repr

/-- What a call does to a store and the files. -/
def Call.run : Call → SuppressionStore → FileSystem →
    Except SuppressionError Unit × SuppressionStore × FileSystem
  | .add hash path comment, store, fs => store.add fs hash path comment
  | .remove hash path, store, fs => store.remove fs hash path
  | .reload, store, fs => ((store.reload fs).1, (store.reload fs).2, fs)

/-- What each call of a run returns and leaves behind. -/
def outcomes : List Call → SuppressionStore → FileSystem →
    List (Except SuppressionError Unit × SuppressionStore × FileSystem)
  | [], _, _ => []
  | call :: calls, store, fs =>
    let after := call.run store fs
    after :: outcomes calls after.2.1 after.2.2

/-- What a call does to a list of records. The first record for a hash and a file name stays. -/
def Call.onRecords : Call → List Suppression → List Suppression
  | .add hash path comment, records =>
    if ∃ s ∈ records, s.hash = hash ∧ s.fileName = FilePath.basename path then records
    else
      records ++ [{
        hash
        fileName := FilePath.basename path
        comment := .ofList (comment.toList.map fun c => if c = '\r' ∨ c = '\n' then ' ' else c) }]
  | .remove hash path, records =>
    records.filter fun s => ¬ (s.hash = hash ∧ s.fileName = FilePath.basename path)
  | .reload, records => records

/-- The lists that the calls of a run make of a list, one after the other. -/
def models : List Call → List Suppression → List (List Suppression)
  | [], _ => []
  | call :: calls, records => call.onRecords records :: models calls (call.onRecords records)

/-- Whether a text may stand in a field: it has no blanks at its ends and no line feed, and it
neither holds a separator nor ends in half of one. -/
def PlainText (text : String) : Prop :=
  Text.trimmed text = text ∧ '\n' ∉ text.toList ∧ ¬ ['|', '|'] <:+: text.toList ∧
    text.toList.getLast? ≠ some '|'

instance (text : String) : Decidable (PlainText text) :=
  inferInstanceAs (Decidable (_ ∧ _ ∧ _ ∧ _))

/-- Whether a hash and the name of a file may stand in a record. -/
def PlainTarget (hash path : String) : Prop :=
  hash ≠ "" ∧ PlainText hash ∧ PlainText (FilePath.basename path)

instance (hash path : String) : Decidable (PlainTarget hash path) :=
  inferInstanceAs (Decidable (_ ∧ _ ∧ _))

/-- Whether a call is about a hash and a file name that may stand in a record. Comments are not
restricted. -/
def Call.Plain : Call → Prop
  | .add hash path _ => PlainTarget hash path
  | .remove hash path => PlainTarget hash path
  | .reload => True

instance : DecidablePred Call.Plain
  | .add hash path _ => inferInstanceAs (Decidable (PlainTarget hash path))
  | .remove hash path => inferInstanceAs (Decidable (PlainTarget hash path))
  | .reload => inferInstanceAs (Decidable True)

/-- What an outcome shows of a list of records: the call went well, the store and a fresh load of
its file have these records, and lookups find them. -/
structure Shows (file : String)
    (outcome : Except SuppressionError Unit × SuppressionStore × FileSystem)
    (records : List Suppression) : Prop where
  succeeded : outcome.1 = .ok ()
  stored : outcome.2.1.records = records
  loaded : SuppressionFile.load outcome.2.2 file = .ok records
  found : ∀ hash path, outcome.2.1.isSuppressed hash path = true ↔
    ∃ s ∈ records, s.hash = hash ∧ s.fileName = FilePath.basename path

/-- The files that a run may start from, and the records they stand for: no file yet, in a directory
that is there, or one whose records are the same once they were rendered and parsed. -/
inductive Starts (fs : FileSystem) (file : String) : List Suppression → Prop
  | missing {place : Place} (ht : fs.resolve file = .ok ⟨place, false⟩)
      (hn : fs.node? place = none) : Starts fs file []
  | present {content : String} {records : List Suppression}
      (ht : fs.readText file = .ok content) (hp : Suppression.parse content file = .ok records)
      (hr : Suppression.parse (Suppression.render records) file = .ok records) :
      Starts fs file records

/-! ## What every call keeps -/

open Suppression

/-- Records that are read as they were written, comments included. -/
def Exact (records : List Suppression) : Prop :=
  ∀ s ∈ records, s.OneLine ∧ s.reread = .ok s

/-- How a file stands to the records of its store between the calls of a run. -/
structure Held (fs : FileSystem) (file : String) (records : List Suppression) : Prop where
  accepts : fs.Accepts file
  opens : ∀ e, fs.openForWriting file true ≠ .error e
  loads : SuppressionFile.load fs file = .ok records
  exact : Exact records

variable {fs : FileSystem} {file : String} {store : SuppressionStore}
  {records : List Suppression} {hash path comment : String}

theorem parse_render_iff_exact (h : ∀ s ∈ records, s.OneLine) :
    Suppression.parse (Suppression.render records) file = .ok records ↔ Exact records := by
  rw [SuppressionFile.parse_eq_ok_iff, Suppression.render, String.toList_ofList,
    parseChars_renderChars_iff h, List.map_inj_left]
  exact ⟨fun hr s hs => ⟨h s hs, hr s hs⟩, fun hx s hs => (hx s hs).2⟩

theorem Exact.parse_rendered (h : Exact records) :
    Suppression.parse (Suppression.render records) file = .ok records :=
  (parse_render_iff_exact fun s hs => (h s hs).1).2 h

theorem Exact.filter (h : Exact records) (p : Suppression → Bool) : Exact (records.filter p) :=
  fun s hs => h s (List.mem_filter.1 hs).1

/-- The first file holds its records. -/
theorem Starts.held (h : Starts fs file records) (ha : fs.Accepts file) :
    Held fs file records := by
  cases h with
  | @missing place ht hn =>
    have ho := ha.openForWriting (FileSystem.openFile_of_vacant ht hn)
    have hr : fs.readText file = .error .notFound := by
      simp only [FileSystem.readText, FileSystem.read, ht, hn, bind, Except.bind]
    refine ⟨ha, fun e he => ?_, ?_, ?_⟩
    · rw [ho] at he
      cases he
    · simp only [SuppressionFile.load, hr]
    · exact fun s hs => absurd hs List.not_mem_nil
  | present ht hp hr =>
    have hl := (SuppressionFile.load_of_readText ht).trans hp
    have hone := SuppressionFile.oneLine_of_load hl
    exact ⟨ha, ha.openForWriting_ne_error ht true, hl, (parse_render_iff_exact hone).1 hr⟩

/-- An update goes well if the records it leaves are read as they were written, and then the file
holds these. -/
theorem Held.update (h : Held fs file records)
    (change : List Suppression → Option (List Suppression))
    (hc : Exact ((change records).getD records)) :
    ∃ changed fs', SuppressionFile.update fs file change = (.ok changed, fs') ∧
      Held fs' file ((change records).getD records) := by
  obtain ⟨fs', text, ht, hu⟩ :=
    SuppressionFile.readText_update h.loads h.opens h.accepts.completes change
  have ha := SuppressionFile.accepts_update h.accepts change
  cases hr : change records with
  | none =>
    simp only [hr] at hu
    rw [hu.1] at ha
    have hl := (SuppressionFile.load_of_readText ht).trans hu.2
    exact ⟨false, fs', hu.1, ha, ha.openForWriting_ne_error ht true, hl, h.exact⟩
  | some changed =>
    simp only [hr, Option.getD_some] at hu hc
    rw [hu.1] at ha
    have hl := (SuppressionFile.load_of_readText ht).trans (hu.2 ▸ hc.parse_rendered)
    exact ⟨true, fs', hu.1, ha, ha.openForWriting_ne_error ht true, hl, hc⟩

/-! ## One call -/

theorem plainText_iff_fieldText {text : String} : PlainText text ↔ FieldText text.toList := by
  rw [PlainText, fieldText_iff, ← String.toList_inj, Text.trimmed, String.toList_ofList]
  rfl

theorem dropReturn_of_not_mem {cs : List Char} (h : '\r' ∉ cs) : Text.dropReturn cs = cs :=
  if_neg fun hl => h (List.mem_of_getLast? hl)

/-- A record for plain texts is read as it was written: its comment has lost its line breaks. -/
theorem reread_ofComment (hp : PlainTarget hash path) (comment : String) :
    let record := ofComment hash (FilePath.basename path) comment
    record.OneLine ∧ record.reread = .ok record := by
  intro record
  obtain ⟨hne, hh, hf⟩ := hp
  have hreturn : '\r' ∉ record.comment.toList := by
    simp only [record, ofComment, String.toList_ofList, List.mem_map, not_exists, not_and]
    intro c _ hc
    split at hc
    · exact absurd hc (by decide)
    · rename_i hother
      exact hother (.inl hc)
  have hstorable : record.Storable :=
    ⟨hne, plainText_iff_fieldText.1 hh, plainText_iff_fieldText.1 hf⟩
  refine ⟨oneLine_iff.2 ⟨hh.2.1, hf.2.1, newline_not_mem_ofComment hash path comment⟩, ?_⟩
  rw [reread_of_storable hstorable, dropReturn_of_not_mem hreturn, String.ofList_toList]

theorem any_covers_iff {name : String} :
    records.any (covers · hash name) = true ↔ ∃ s ∈ records, s.hash = hash ∧ s.fileName = name := by
  rw [List.any_eq_true]
  exact exists_congr fun s => and_congr_right fun _ => covers_iff

theorem getD_withRecord (hash path comment : String) (records : List Suppression) :
    (SuppressionFile.withRecord (ofComment hash (FilePath.basename path) comment) records).getD
      records = (Call.add hash path comment).onRecords records := by
  rw [SuppressionFile.withRecord, Call.onRecords]
  by_cases hs : ∃ s ∈ records, s.hash = hash ∧ s.fileName = FilePath.basename path
  · have hany := any_covers_iff.2 hs
    rw [if_pos hs, if_pos (by exact hany), Option.getD_none]
  · have hany := mt any_covers_iff.1 hs
    rw [if_neg hs, if_neg (by exact hany), Option.getD_some]
    rfl

theorem filter_not_covers (hash name : String) (records : List Suppression) :
    records.filter (fun r => !r.covers hash name) =
      records.filter fun s => ¬ (s.hash = hash ∧ s.fileName = name) := by
  refine List.filter_congr fun s _ => ?_
  rw [Bool.eq_iff_iff, Bool.not_eq_true', ← Bool.not_eq_true, covers_iff, decide_eq_true_iff]

theorem getD_withoutRecords (hash path : String) (records : List Suppression) :
    (SuppressionFile.withoutRecords hash (FilePath.basename path) records).getD records =
      (Call.remove hash path).onRecords records := by
  have hkept : records.filter (fun r => !r.covers hash (FilePath.basename path)) =
      (Call.remove hash path).onRecords records :=
    filter_not_covers hash (FilePath.basename path) records
  simp only [SuppressionFile.withoutRecords, hkept]
  by_cases hlen : ((Call.remove hash path).onRecords records).length = records.length
  · have hall : (Call.remove hash path).onRecords records = records :=
      List.filter_sublist.eq_of_length hlen
    rw [if_pos hlen, Option.getD_none, hall]
  · rw [if_neg hlen, Option.getD_some]

/-- Calls with plain texts keep records that are read as they were written. -/
theorem Exact.onRecords {call : Call} (h : Exact records) (hc : call.Plain) :
    Exact (call.onRecords records) := by
  cases call with
  | add hash path comment =>
    rw [Call.onRecords]
    split
    · exact h
    · intro s hs
      obtain hs | hs := List.mem_append.1 hs
      · exact h s hs
      · rw [List.mem_singleton.1 hs]
        exact reread_ofComment hc comment
  | remove hash path => exact h.filter _
  | reload => exact h

theorem reload_of_load (hw : store.writableFile? = some file)
    (hl : SuppressionFile.load fs file = .ok records) :
    store.reload fs = (.ok (), { store with records }) := by
  simp only [reload, backing_of_writableFile? store hw, hl]

/-- A change of the file that goes well is followed by a reload. -/
theorem change_of_update {change : List Suppression → Option (List Suppression)}
    {edit : FileSystem → String → Except SuppressionError Bool × FileSystem}
    (hedit : ∀ fs file, edit fs file = SuppressionFile.update fs file change)
    (hw : store.writableFile? = some file) (h : Held fs file records)
    (hc : Exact ((change records).getD records)) :
    ∃ fs', store.change fs edit =
        (.ok (), { store with records := (change records).getD records }, fs') ∧
      Held fs' file ((change records).getD records) := by
  obtain ⟨changed, fs', hu, hheld⟩ := h.update change hc
  refine ⟨fs', ?_, hheld⟩
  simp only [SuppressionStore.change, hw, hedit, hu, reload_of_load hw hheld.loads]

/-- One call does to a store and its file what it does to a list. -/
theorem Call.run_of_held {call : Call} (hw : store.writableFile? = some file)
    (h : Held fs file records) (hc : call.Plain) :
    ∃ fs', call.run store fs =
        (.ok (), { store with records := call.onRecords records }, fs') ∧
      Held fs' file (call.onRecords records) := by
  have hexact := h.exact.onRecords hc
  cases call with
  | add hash path comment =>
    rw [← getD_withRecord] at hexact ⊢
    exact change_of_update (fun _ _ => rfl) hw h hexact
  | remove hash path =>
    rw [← getD_withoutRecords] at hexact ⊢
    exact change_of_update (fun _ _ => rfl) hw h hexact
  | reload => exact ⟨fs, by simp only [Call.run, reload_of_load hw h.loads, onRecords], h⟩

/-! ## Runs -/

theorem Held.shows {fs' : FileSystem} (h : Held fs' file records) :
    Shows file (.ok (), { store with records }, fs') records :=
  ⟨rfl, rfl, h.loads, fun _ _ => any_covers_iff⟩

/-- Whatever calls are made of a writable store over a file that the device accepts, each goes well,
and after each the records in memory and in the file are those that the same calls make of the list
of records at the start. -/
theorem forall₂_shows (hw : store.writableFile? = some file) (ha : fs.Accepts file)
    (hs : Starts fs file records) {calls : List Call} (hc : ∀ call ∈ calls, call.Plain) :
    List.Forall₂ (Shows file) (outcomes calls store fs) (models calls records) := by
  have hheld := hs.held ha
  clear hs ha
  induction calls generalizing store fs records with
  | nil => exact .nil
  | cons call calls ih =>
    obtain ⟨hcall, hcalls⟩ := List.forall_mem_cons.1 hc
    obtain ⟨fs', hrun, hheld'⟩ := Call.run_of_held hw hheld hcall
    simp only [outcomes, models, hrun]
    exact .cons hheld'.shows (ih hw hcalls hheld')

/-- A run on the file with one record. The comment loses its line break and keeps its separator. -/
theorem forall₂_shows_oneRecord :
    let calls : List Call := [.add "k" "src/x.c" "a||b\nc|", .remove "h" "/y/a.c", .reload,
      .add "k" "x.c" "again"]
    List.Forall₂ (Shows "s") (outcomes calls oneRecordStore oneRecordFiles)
      [[⟨"h", "a.c", ""⟩, ⟨"k", "x.c", "a||b c|"⟩], [⟨"k", "x.c", "a||b c|"⟩],
        [⟨"k", "x.c", "a||b c|"⟩], [⟨"k", "x.c", "a||b c|"⟩]] := by
  intro calls
  have hstart : Starts oneRecordFiles "s" [⟨"h", "a.c", ""⟩] :=
    .present readText_oneRecordFiles (by rfl) (by rfl)
  have hplain : ∀ call ∈ calls, call.Plain := by decide
  have hmodels : models calls [⟨"h", "a.c", ""⟩] =
      [[⟨"h", "a.c", ""⟩, ⟨"k", "x.c", "a||b c|"⟩], [⟨"k", "x.c", "a||b c|"⟩],
        [⟨"k", "x.c", "a||b c|"⟩], [⟨"k", "x.c", "a||b c|"⟩]] := by decide
  rw [← hmodels]
  exact forall₂_shows rfl accepts_oneRecordFiles hstart hplain

end Findings.SuppressionStore
