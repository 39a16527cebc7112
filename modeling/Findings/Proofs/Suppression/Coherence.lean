import Findings.Proofs.Suppression.Runs

/-!
# Stores whose file is changed by others

Between two calls of a store anything may happen to its file: it is rewritten, spoilt, taken away.
The records in memory are a cache of it that is filled by loading the whole file, and only by that.
So what they stand for after a call depends on how the call ended, and on nothing that came before.

* `Event`, `occurrences`: runs of calls with changes from outside in between.
* `Reflects`: records are those of a file as it is.
* `Call.Ends`: the three ways in which a call ends. What is loaded is loaded from the files that the
  call leaves.
* `coherent_occurrences`: what records and files are after every call of a run.
-/

namespace Findings.SuppressionStore

/-! ## Runs -/

/-- What happens in a run: a call of the store, or a change of the files that others make. -/
inductive Event where
  | call (call : Call)
  | outside (change : FileSystem → FileSystem)

/-- A call in a run, with the store and the files that it found. -/
structure Occurrence where
  call : Call
  store : SuppressionStore
  files : FileSystem

/-- What the call returned, and the store and the files that it left. -/
def Occurrence.after (found : Occurrence) :
    Except SuppressionError Unit × SuppressionStore × FileSystem :=
  found.call.run found.store found.files

/-- The calls of a run, in order. -/
def occurrences : List Event → SuppressionStore → FileSystem → List Occurrence
  | [], _, _ => []
  | .call call :: events, store, fs =>
    let found : Occurrence := { call, store, files := fs }
    found :: occurrences events found.after.2.1 found.after.2.2
  | .outside change :: events, store, fs => occurrences events store (change fs)

/-- Records are those of a file as it is: the ones that its text parses to, and none if there is no
file. -/
inductive Reflects (fs : FileSystem) (file : String) : List Suppression → Prop
  | present {content : String} {records : List Suppression} (ht : fs.readText file = .ok content)
      (hp : Suppression.parse content file = .ok records) : Reflects fs file records
  | missing (ht : fs.readText file = .error .notFound) : Reflects fs file []

/-- What a call may do to records and files. -/
structure Occurrence.Coherent (found : Occurrence) : Prop where
  /-- A reload that goes well has the records of the file. -/
  reloaded : found.call = .reload → found.after.1 = .ok () → ∀ file ∈ found.store.backing,
    Reflects found.after.2.2 file found.after.2.1.records
  /-- So has a change of a writable store that goes well, whether it wrote anything or not. -/
  changed : found.call ≠ .reload → found.after.1 = .ok () → found.store.writable = true →
    ∃ file ∈ found.store.backing, Reflects found.after.2.2 file found.after.2.1.records
  /-- A call that fails, be it before it wrote or after, keeps the records. -/
  failed : ∀ e, found.after.1 = .error e → found.after.2.1.records = found.store.records
  untouched : found.store.writable = false → found.after.2.2 = found.files
  ignored : found.store.writable = false → found.call ≠ .reload →
    found.after.2.1.records = found.store.records

/-! ## One call -/

variable {fs : FileSystem} {file : String} {store : SuppressionStore} {call : Call}
  {records : List Suppression}

theorem reflects_of_load (h : SuppressionFile.load fs file = .ok records) :
    Reflects fs file records := by
  obtain ⟨content, ht, hp⟩ | ⟨ht, rfl⟩ := SuppressionFile.load_eq_ok h
  · exact .present ht hp
  · exact .missing ht

/-- A reload takes the records of the file, and nothing else, unless it fails. -/
theorem reload_cases (store : SuppressionStore) (fs : FileSystem) :
    (∃ e, store.reload fs = (.error e, store)) ∨
      ∃ records, store.reload fs = (.ok (), { store with records }) ∧
        ∀ file ∈ store.backing, Reflects fs file records := by
  rcases store with ⟨none | file, writable, records⟩
  · exact .inr ⟨records, rfl, nofun⟩
  · cases hl : SuppressionFile.load fs file with
    | error e => exact .inl ⟨e, by simp only [reload, hl]⟩
    | ok records =>
      refine .inr ⟨records, by simp only [reload, hl], ?_⟩
      rintro _ ⟨⟩
      exact reflects_of_load hl

/-- How a call ends. -/
inductive Call.Ends (call : Call) (store : SuppressionStore) (fs : FileSystem) : Prop
  /-- It is a change, and the store has no file to write. -/
  | ignored (hc : call ≠ .reload) (hw : store.writableFile? = none)
      (hr : call.run store fs = (.ok (), store, fs))
  /-- It is a change that could not be made. -/
  | refused {e : SuppressionError} {fs' : FileSystem} (hw : store.writableFile? ≠ none)
      (hr : call.run store fs = (.error e, store, fs'))
  /-- It loads the records from the files that it leaves. -/
  | loaded {fs' : FileSystem} (hw : store.writableFile? ≠ none ∨ call = .reload ∧ fs' = fs)
      (hr : call.run store fs = ((store.reload fs').1, (store.reload fs').2, fs'))

theorem Call.ends_of_change {edit : FileSystem → String → Except SuppressionError Bool × FileSystem}
    (hc : call ≠ .reload) (hr : call.run store fs = store.change fs edit) :
    call.Ends store fs := by
  cases hw : store.writableFile? with
  | none => exact .ignored hc hw (by simp only [hr, change, hw])
  | some file =>
    have hne : store.writableFile? ≠ none := by simp [hw]
    simp only [change, hw] at hr
    rcases he : edit fs file with ⟨e | changed, fs'⟩
    · rw [he] at hr
      exact .refused hne hr
    · rw [he] at hr
      exact .loaded (.inl hne) hr

theorem Call.ends (call : Call) (store : SuppressionStore) (fs : FileSystem) :
    call.Ends store fs := by
  cases call with
  | add hash path comment => exact ends_of_change nofun (by rfl)
  | remove hash path => exact ends_of_change nofun (by rfl)
  | reload => exact .loaded (.inr ⟨rfl, rfl⟩) rfl

/-- A call changes neither which file a store has nor whether it writes it. -/
theorem Call.run_settings (call : Call) (store : SuppressionStore) (fs : FileSystem) :
    (call.run store fs).2.1.backing = store.backing ∧
      (call.run store fs).2.1.writable = store.writable := by
  cases call.ends store fs with
  | ignored _ _ hr => rw [hr]; exact ⟨rfl, rfl⟩
  | refused _ hr => rw [hr]; exact ⟨rfl, rfl⟩
  | @loaded fs' _ hr =>
    rw [hr]
    obtain ⟨e, hl⟩ | ⟨records, hl, -⟩ := reload_cases store fs' <;> rw [hl] <;> exact ⟨rfl, rfl⟩

/-- A store that may write and has a file to write ignores no change. -/
theorem writableFile?_eq_none_iff (hb : store.writable = true → store.backing ≠ none) :
    store.writableFile? = none ↔ store.writable = false := by
  cases hw : store.writable with
  | false => simp [writableFile?, hw]
  | true => simpa [writableFile?, hw] using hb hw

/-- One call, whatever store and files it finds. -/
theorem Occurrence.coherent (found : Occurrence)
    (hb : found.store.writable = true → found.store.backing ≠ none) : found.Coherent := by
  obtain ⟨call, store, fs⟩ := found
  have hiff : store.writableFile? = none ↔ store.writable = false := writableFile?_eq_none_iff hb
  cases call.ends store fs with
  | ignored hc hw hr =>
    have hro := hiff.1 hw
    exact {
      reloaded := fun h => absurd h hc
      changed := fun _ _ h => absurd h (by simp [hro])
      failed := by simp [after, hr]
      untouched := by simp [after, hr]
      ignored := by simp [after, hr] }
  | refused hw hr =>
    have hro (h : store.writable = false) := hw (hiff.2 h)
    exact {
      reloaded := by simp [after, hr]
      changed := by simp [after, hr]
      failed := by simp [after, hr]
      untouched := fun h => (hro h).elim
      ignored := fun h => (hro h).elim }
  | @loaded fs' hw hr =>
    have hro (h : store.writable = false) : call = .reload ∧ fs' = fs :=
      hw.resolve_left fun hne => hne (hiff.2 h)
    have hfiles (h : store.writable = false) : (call.run store fs).2.2 = fs := by
      rw [hr]
      exact (hro h).2
    obtain ⟨e, hl⟩ | ⟨records, hl, href⟩ := reload_cases store fs' <;> rw [hl] at hr
    · exact {
        reloaded := by simp [after, hr]
        changed := by simp [after, hr]
        failed := by simp [after, hr]
        untouched := hfiles
        ignored := fun h hc => absurd (hro h).1 hc }
    · exact {
        reloaded := fun _ _ => by simpa [after, hr] using href
        changed := fun _ _ h => by
          obtain ⟨file, hfile⟩ := Option.ne_none_iff_exists'.1 (hb h)
          exact ⟨file, hfile, by simpa [after, hr] using href file hfile⟩
        failed := by simp [after, hr]
        untouched := hfiles
        ignored := fun h hc => absurd (hro h).1 hc }

/-! ## Runs of calls -/

theorem openStore_settings {backing : Option String} {writable : Bool}
    (h : openStore fs backing writable = .ok store) :
    store.backing = backing ∧ store.writable = writable ∧
      (writable = true → backing ≠ none) := by
  unfold openStore at h
  split at h
  · cases h
  · rename_i hfile
    obtain ⟨e, hl⟩ | ⟨records, hl, -⟩ := reload_cases { backing, writable } fs <;> rw [hl] at h
    · cases h
    · obtain rfl := Except.ok.inj h
      refine ⟨rfl, rfl, ?_⟩
      rintro rfl rfl
      exact hfile rfl

/-- Whatever others do to the files between the calls of a store, each call finds the store with
the file it was opened over. What it loads is what is there then, a failure keeps the records, and a
store that is not writable changes nothing. -/
theorem coherent_occurrences {backing : Option String} {writable : Bool}
    (h : openStore fs backing writable = .ok store) (events : List Event) :
    ∀ found ∈ occurrences events store fs,
      found.store.backing = backing ∧ found.store.writable = writable ∧ found.Coherent := by
  obtain ⟨hb, hw, hfile⟩ := openStore_settings h
  clear h
  induction events generalizing store fs with
  | nil => exact List.forall_mem_nil _
  | cons event events ih =>
    cases event with
    | call call =>
      obtain ⟨hb', hw'⟩ := call.run_settings store fs
      refine List.forall_mem_cons.2 ⟨⟨hb, hw, Occurrence.coherent _ ?_⟩, ?_⟩
      · rwa [hb, hw]
      · exact ih (hb'.trans hb) (hw'.trans hw)
    | outside change => exact ih hb hw

/-- A file is spoilt, so that nothing can be added; taken away, which a reload takes for no records;
and written anew, with a record that the store does not know when it adds another. -/
def spoiltRun : List Event :=
  [.outside (·.addFile "s" "h|a.c".toUTF8), .call (.add "k" "x.c" ""),
    .outside (·.removeFile "s"), .call .reload,
    .outside (·.addFile "s" "g||b.c||\n".toUTF8), .call (.add "k" "x.c" "")]

theorem coherent_spoiltRun :
    (occurrences spoiltRun oneRecordStore oneRecordFiles).map
        (fun found => (found.after.1.isOk, found.after.2.1.records)) =
      [(false, [⟨"h", "a.c", ""⟩]), (true, []),
        (true, [⟨"g", "b.c", ""⟩, ⟨"k", "x.c", ""⟩])] ∧
    ∀ found ∈ occurrences spoiltRun oneRecordStore oneRecordFiles,
      found.store.backing = some "s" ∧ found.store.writable = true ∧ found.Coherent :=
  ⟨by decide +kernel, coherent_occurrences openStore_oneRecordFiles spoiltRun⟩

end Findings.SuppressionStore
