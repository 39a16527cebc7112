import Findings.Proofs.FileSystem.Rewrite
import Findings.Proofs.Suppression.Record
import Findings.Suppression.Store

/-!
# Adding a suppression

Adding a record writes the whole file anew and loads it again, so it is right if and only if all
records survive that.

* `update_eq_ok`: what an update did that answers.
* `add_of_writableFile?`: what adding does. `add_of_error`, `add_of_isSuppressed`,
  `add_of_not_isSuppressed`: the cases for a store that was just opened.
* `addsExactly_iff`: when adding suppresses what it is asked to, and nothing else.
-/

namespace Findings

open Suppression

/-! ## Loading and updating a file -/

namespace SuppressionFile

variable {fs after : FileSystem} {path : String} {records : List Suppression}

theorem load_of_readText {content : String} (h : fs.readText path = .ok content) :
    load fs path = Suppression.parse content path := by
  simp only [load, h]

/-- A file that was loaded is one that parses, or none at all. -/
theorem load_eq_ok (h : load fs path = .ok records) :
    (∃ content, fs.readText path = .ok content ∧ Suppression.parse content path = .ok records) ∨
      fs.readText path = .error .notFound ∧ records = [] := by
  unfold load at h
  split at h
  · rename_i content hr
    exact .inl ⟨content, hr, h⟩
  · rename_i hr
    exact .inr ⟨hr, (Except.ok.inj h).symm⟩
  · simp at h

theorem parse_eq_ok_iff {content : String} :
    Suppression.parse content path = .ok records ↔ parseChars content.toList = .ok records := by
  unfold Suppression.parse
  split <;> simp_all

theorem oneLine_of_load (h : load fs path = .ok records) : ∀ s ∈ records, s.OneLine := by
  obtain ⟨content, -, hp⟩ | ⟨-, rfl⟩ := load_eq_ok h
  · exact oneLine_of_parseChars (parse_eq_ok_iff.1 hp)
  · simp

/-- The text that opening a loaded file gives parses to what was loaded. -/
theorem decodeText_of_load (h : load fs path = .ok records) {place : Place} {content : ByteArray}
    {fs' : FileSystem} (ho : fs.openFile path true = .ok (place, content, fs')) :
    ∃ text, FileSystem.decodeText content = .ok text ∧
      Suppression.parse text path = .ok records := by
  obtain ⟨text, hr, hp⟩ | ⟨hr, rfl⟩ := load_eq_ok h
  · obtain ⟨bytes, hread, hd⟩ := bind_eq_ok_iff.1 hr
    obtain ⟨place', ho'⟩ := FileSystem.openFile_of_read hread true
    have heq := Except.ok.inj (ho.symm.trans ho')
    simp only [Prod.mk.injEq] at heq
    exact ⟨text, heq.2.1 ▸ hd, hp⟩
  · rw [FileSystem.content_of_openFile ho hr]
    exact ⟨"", FileSystem.decodeText_toUTF8 "", rfl⟩

theorem update_of_error {e : AccessError} (h : fs.openForWriting path true = .error e)
    (change : List Suppression → Option (List Suppression)) :
    update fs path change = (.error (.io path e), fs) := by
  simp only [update, FileSystem.rewrite_of_error h]

/-- An update of a loaded file that can be opened and written leaves a text there: the records it
changed, or else one that still parses to the same records. -/
theorem readText_update (h : load fs path = .ok records)
    (ho : ∀ e, fs.openForWriting path true ≠ .error e) (hc : fs.Completes path)
    (change : List Suppression → Option (List Suppression)) :
    ∃ fs' text, fs'.readText path = .ok text ∧
      match change records with
      | none => update fs path change = (.ok false, fs') ∧
          Suppression.parse text path = .ok records
      | some changed => update fs path change = (.ok true, fs') ∧
          text = Suppression.render changed := by
  cases hopen : fs.openForWriting path true with
  | error e => exact absurd hopen (ho e)
  | ok opened =>
    obtain ⟨place, content, fs₁⟩ := opened
    obtain ⟨hfile, -⟩ := FileSystem.openForWriting_eq_ok_iff.1 hopen
    obtain ⟨text, hd, hp⟩ := decodeText_of_load h hfile
    obtain ⟨fs', he, ht⟩ := FileSystem.edit_of_openFile hfile hd (revise path change)
    have hw := FileSystem.rewrite_of_openForWriting hopen hc (revise path change)
    rw [he] at hw
    refine ⟨fs', _, ht, ?_⟩
    cases hchange : change records with
    | none =>
      simp only [revise, hp, hchange] at hw ⊢
      exact ⟨by simp only [update, hw, Except.mapError], trivial⟩
    | some changed =>
      simp only [revise, hp, hchange] at hw ⊢
      exact ⟨by simp only [update, hw, Except.mapError], trivial⟩

/-- An update of a loaded file that can be opened and written renders the records it changes, and
keeps a file without changes as it was. -/
theorem update_of_load (h : load fs path = .ok records)
    (ho : ∀ e, fs.openForWriting path true ≠ .error e) (hc : fs.Completes path)
    (change : List Suppression → Option (List Suppression)) :
    ∃ fs', match change records with
      | none => update fs path change = (.ok false, fs') ∧ load fs' path = .ok records
      | some changed => update fs path change = (.ok true, fs') ∧
          fs'.readText path = .ok (Suppression.render changed) := by
  obtain ⟨fs', text, ht, hu⟩ := readText_update h ho hc change
  refine ⟨fs', ?_⟩
  cases hchange : change records with
  | none =>
    simp only [hchange] at hu ⊢
    exact ⟨hu.1, by rw [load_of_readText ht, hu.2]⟩
  | some changed =>
    simp only [hchange] at hu ⊢
    exact ⟨hu.1, hu.2 ▸ ht⟩

theorem revise_of_parse {change : List Suppression → Option (List Suppression)} {text : String}
    (hp : parse text path = .ok records) :
    revise path change text =
      ((change records).elim text render, .ok (change records).isSome) := by
  simp only [revise, hp]
  cases change records <;> rfl

/-- An update that answers has put a text at the place that the path leads to: that of the changed
records, or the one that was there. -/
theorem update_eq_ok {change : List Suppression → Option (List Suppression)} {changed : Bool}
    (h : update fs path change = (.ok changed, after)) :
    ∃ place text records, fs.resolve path = .ok ⟨place, false⟩ ∧ place ≠ [] ∧
      (fs.node? place = some (.file text.toUTF8) ∨ fs.node? place = none ∧ text = "") ∧
      parse text path = .ok records ∧ changed = (change records).isSome ∧
      after = fs.put place (.file ((change records).elim text render).toUTF8) := by
  unfold update at h
  split at h
  · rename_i result edited he
    obtain ⟨place, text, ht, hne, rfl, rfl, hn⟩ :=
      FileSystem.edit_eq_ok (FileSystem.edit_of_rewrite_eq_ok he)
    cases hp : parse text path with
    | error e =>
      simp only [revise, hp] at h
      cases h
    | ok records =>
      rw [revise_of_parse hp] at h
      cases h
      exact ⟨place, text, records, ht, hne, hn.imp_right And.right, hp, rfl, rfl⟩
  · cases h

end SuppressionFile

/-! ## Stores that were just opened -/

namespace SuppressionStore

variable {fs : FileSystem} {file : String} {store : SuppressionStore}
  (hash path comment : String)

theorem openStore_of_load {records : List Suppression}
    (h : SuppressionFile.load fs file = .ok records) (writable : Bool) :
    openStore fs (some file) writable = .ok { backing := some file, writable, records } := by
  simp [openStore, reload, h]

theorem openStore_eq_ok {writable : Bool} (h : openStore fs (some file) writable = .ok store) :
    SuppressionFile.load fs file = .ok store.records ∧
      store = { backing := some file, writable, records := store.records } := by
  cases hl : SuppressionFile.load fs file with
  | error e => simp [openStore, reload, hl] at h
  | ok records =>
    rw [openStore_of_load hl] at h
    obtain rfl := Except.ok.inj h
    exact ⟨rfl, rfl⟩

variable (store) in
/-- Adding to a store that has a file to write appends to the file and loads it again. -/
theorem add_of_writableFile? (hw : store.writableFile? = some file) :
    store.add fs hash path comment =
      match SuppressionFile.append fs file (.ofComment hash (FilePath.basename path) comment) with
      | (.error e, fs) => (.error e, store, fs)
      | (.ok _, fs) => ((store.reload fs).1, (store.reload fs).2, fs) := by
  unfold add change
  split
  case h_1 hn =>
    rw [hw] at hn
    cases hn
  case h_2 backing hs =>
    obtain rfl : file = backing := Option.some.inj (hw.symm.trans hs)
    rfl

section Opened

variable (h : openStore fs (some file) true = .ok store)
include h

theorem writableFile?_of_openStore : store.writableFile? = some file := by
  rw [(openStore_eq_ok h).2]
  rfl

/-- A file that cannot be opened for writing is left alone. -/
theorem add_of_error {e : AccessError} (he : fs.openForWriting file true = .error e) :
    store.add fs hash path comment = (.error (.io file e), store, fs) := by
  rw [add_of_writableFile? store hash path comment (writableFile?_of_openStore h),
    SuppressionFile.append, SuppressionFile.update_of_error he]

/-- What is suppressed is not added again. -/
theorem add_of_isSuppressed (ho : ∀ e, fs.openForWriting file true ≠ .error e)
    (hc : fs.Completes file) (hs : store.isSuppressed hash path = true) :
    ∃ fs', store.add fs hash path comment = (.ok (), store, fs') ∧
      SuppressionFile.load fs' file = .ok store.records := by
  obtain ⟨hl, hstore⟩ := openStore_eq_ok h
  obtain ⟨fs', hu⟩ := SuppressionFile.update_of_load hl ho hc
    (SuppressionFile.withRecord (.ofComment hash (FilePath.basename path) comment))
  have hnone : SuppressionFile.withRecord (.ofComment hash (FilePath.basename path) comment)
      store.records = none := if_pos hs
  rw [hnone] at hu
  refine ⟨fs', ?_, hu.2⟩
  have hreload : store.reload fs' = (.ok (), store) := by
    rw [hstore]
    simp only [reload, hu.2]
  rw [add_of_writableFile? store hash path comment (writableFile?_of_openStore h),
    SuppressionFile.append, hu.1]
  simp only [hreload]

/-- What is not suppressed is written at the end, and everything is read again. -/
theorem add_of_not_isSuppressed (ho : ∀ e, fs.openForWriting file true ≠ .error e)
    (hc : fs.Completes file) (hs : store.isSuppressed hash path = false) :
    ∃ fs', store.add fs hash path comment = ((store.reload fs').1, (store.reload fs').2, fs') ∧
      SuppressionFile.load fs' file = Suppression.parse (Suppression.render
        (store.records ++ [.ofComment hash (FilePath.basename path) comment])) file := by
  obtain ⟨hl, hstore⟩ := openStore_eq_ok h
  obtain ⟨fs', hu⟩ := SuppressionFile.update_of_load hl ho hc
    (SuppressionFile.withRecord (.ofComment hash (FilePath.basename path) comment))
  have hsome : SuppressionFile.withRecord (.ofComment hash (FilePath.basename path) comment)
      store.records = some (store.records ++ [.ofComment hash (FilePath.basename path) comment]) :=
    if_neg (Bool.eq_false_iff.1 hs)
  rw [hsome] at hu
  refine ⟨fs', ?_, SuppressionFile.load_of_readText hu.2⟩
  rw [add_of_writableFile? store hash path comment (writableFile?_of_openStore h),
    SuppressionFile.append, hu.1]

end Opened

/-- Adding does what it is asked to: the file still loads, an error leaves its content alone, and
otherwise this store and one that is opened afresh suppress the hash in files of that name, and all
else as before. -/
structure AddsExactly (fs : FileSystem) (file : String) (store : SuppressionStore)
    (hash path comment : String) : Prop where
  loads : ∃ records,
    SuppressionFile.load (store.add fs hash path comment).2.2 file = .ok records
  unchanged : ∀ e, (store.add fs hash path comment).1 = .error e →
    (store.add fs hash path comment).2.2.read file = fs.read file
  here : (store.add fs hash path comment).1 = .ok () → ∀ h q,
    (store.add fs hash path comment).2.1.isSuppressed h q = true ↔
      h = hash ∧ FilePath.basename q = FilePath.basename path ∨ store.isSuppressed h q = true
  afresh : (store.add fs hash path comment).1 = .ok () → ∀ writable, ∃ opened,
    openStore (store.add fs hash path comment).2.2 (some file) writable = .ok opened ∧ ∀ h q,
      opened.isSuppressed h q = true ↔
        h = hash ∧ FilePath.basename q = FilePath.basename path ∨ store.isSuppressed h q = true

theorem addsExactly_iff_of_add {fs' : FileSystem} {records : List Suppression}
    (ha : store.add fs hash path comment = (.ok (), { store with records }, fs'))
    (hl : SuppressionFile.load fs' file = .ok records) :
    AddsExactly fs file store hash path comment ↔ ∀ h q,
      records.any (covers · h (FilePath.basename q)) = true ↔
        h = hash ∧ FilePath.basename q = FilePath.basename path ∨
          store.isSuppressed h q = true := by
  constructor
  · intro hx
    have hhere := hx.here
    rw [ha] at hhere
    exact hhere rfl
  · intro hx
    refine ⟨?_, ?_, ?_, ?_⟩ <;> rw [ha]
    · exact ⟨records, hl⟩
    · simp
    · exact fun _ => hx
    · exact fun _ writable => ⟨_, openStore_of_load hl writable, hx⟩

theorem any_append_record (records : List Suppression) (h q : String) :
    (records ++ [ofComment hash (FilePath.basename path) comment]).any
        (covers · h (FilePath.basename q)) = true ↔
      h = hash ∧ FilePath.basename q = FilePath.basename path ∨
        records.any (covers · h (FilePath.basename q)) = true := by
  simp only [List.any_append, List.any_cons, List.any_nil, Bool.or_false, Bool.or_eq_true,
    covers_iff, ofComment]
  constructor
  · rintro (hr | ⟨rfl, hn⟩)
    · exact .inr hr
    · exact .inl ⟨rfl, hn.symm⟩
  · rintro (⟨rfl, hn⟩ | hr)
    · exact .inr ⟨rfl, hn.symm⟩
    · exact .inl hr

theorem newline_not_mem_ofComment :
    '\n' ∉ (ofComment hash (FilePath.basename path) comment).comment.toList := by
  simp only [ofComment, String.toList_ofList, List.mem_map, not_exists, not_and]
  intro c _ hc
  split at hc
  · exact absurd hc (by decide)
  · rename_i hne
    exact hne (.inr hc)

section Cases

variable (h : openStore fs (some file) true = .ok store)
include h

theorem addsExactly_of_error {e : AccessError} (he : fs.openForWriting file true = .error e) :
    AddsExactly fs file store hash path comment := by
  have ha := add_of_error hash path comment h he
  refine ⟨?_, ?_, ?_, ?_⟩ <;> rw [ha]
  · exact ⟨store.records, (openStore_eq_ok h).1⟩
  · exact fun _ _ => rfl
  · simp
  · simp

theorem addsExactly_of_isSuppressed (ho : ∀ e, fs.openForWriting file true ≠ .error e)
    (hc : fs.Completes file) (hs : store.isSuppressed hash path = true) :
    AddsExactly fs file store hash path comment := by
  obtain ⟨fs', ha, hload⟩ := add_of_isSuppressed hash path comment h ho hc hs
  refine (addsExactly_iff_of_add hash path comment ha hload).2 fun hash' q => ⟨.inr, ?_⟩
  rintro (⟨rfl, hn⟩ | hr)
  · rw [hn]
    exact hs
  · exact hr

variable (ho : ∀ e, fs.openForWriting file true ≠ .error e) (hc : fs.Completes file)
  (hs : store.isSuppressed hash path = false)
include ho hc hs

/-- After a record was written, adding is right if what is read covers the same as what was
written. -/
theorem addsExactly_iff_of_not_isSuppressed :
    AddsExactly fs file store hash path comment ↔
      ∃ records', parseChars (renderChars
          (store.records ++ [ofComment hash (FilePath.basename path) comment])) = .ok records' ∧
        ∀ h q, records'.any (covers · h (FilePath.basename q)) =
          (store.records ++ [ofComment hash (FilePath.basename path) comment]).any
            (covers · h (FilePath.basename q)) := by
  obtain ⟨fs', ha, hload⟩ := add_of_not_isSuppressed hash path comment h ho hc hs
  have hparse (records' : List Suppression) :
      SuppressionFile.load fs' file = .ok records' ↔ parseChars (renderChars
        (store.records ++ [ofComment hash (FilePath.basename path) comment])) = .ok records' := by
    rw [hload, SuppressionFile.parse_eq_ok_iff, Suppression.render, String.toList_ofList]
  have hexact {records' : List Suppression} (hl : SuppressionFile.load fs' file = .ok records') :
      AddsExactly fs file store hash path comment ↔
        ∀ h q, records'.any (covers · h (FilePath.basename q)) =
          (store.records ++ [ofComment hash (FilePath.basename path) comment]).any
            (covers · h (FilePath.basename q)) := by
    have hreload : store.reload fs' = (.ok (), { store with records := records' }) := by
      rw [(openStore_eq_ok h).2]
      simp only [reload, hl]
    rw [hreload] at ha
    rw [addsExactly_iff_of_add hash path comment ha hl]
    refine forall_congr' fun hash' => forall_congr' fun q => ?_
    have hwritten := any_append_record hash path comment store.records hash' q
    exact (iff_congr Iff.rfl hwritten.symm).trans Bool.eq_iff_iff.symm
  constructor
  · intro hx
    obtain ⟨records', hl⟩ := hx.loads
    rw [ha] at hl
    exact ⟨records', (hparse records').1 hl, (hexact hl).1 hx⟩
  · rintro ⟨records', hp, hcover⟩
    exact (hexact ((hparse records').2 hp)).2 hcover

theorem addsExactly_iff_survive :
    AddsExactly fs file store hash path comment ↔
      Survive (store.records ++ [ofComment hash (FilePath.basename path) comment]) := by
  rw [addsExactly_iff_of_not_isSuppressed hash path comment h ho hc hs]
  constructor
  · rintro ⟨records', hp, hcover⟩
    -- The new record is found again, and whatever was read takes one line.
    have hfound := (any_append_record hash path comment store.records hash path).2
      (.inl ⟨rfl, rfl⟩)
    rw [← hcover] at hfound
    obtain ⟨r, hr, hcovers⟩ := List.any_eq_true.1 hfound
    obtain ⟨hrh, hrn⟩ := covers_iff.1 hcovers
    obtain ⟨hnl, hnl', -⟩ := oneLine_iff.1 (oneLine_of_parseChars hp r hr)
    have hnew : (ofComment hash (FilePath.basename path) comment).OneLine :=
      oneLine_iff.2 ⟨hrh ▸ hnl, hrn ▸ hnl', newline_not_mem_ofComment hash path comment⟩
    have hline := List.forall_mem_append.2
      ⟨SuppressionFile.oneLine_of_load (openStore_eq_ok h).1, List.forall_mem_singleton.2 hnew⟩
    exact ⟨hline, records', (parseChars_renderChars_iff hline).1 hp, hcover⟩
  · rintro ⟨hline, records', hmap, hcover⟩
    exact ⟨records', (parseChars_renderChars_iff hline).2 hmap, hcover⟩

end Cases

/-- Over a file whose writes do not fail, a store that was just opened adds a suppression as it
should iff it is there already, or the file cannot be opened for writing, or all records with the
new one survive being written and read. For that it is enough that they are all storable, and for
records that name files it takes no less. -/
theorem addsExactly_iff (h : openStore fs (some file) true = .ok store)
    (hc : fs.Completes file) :
    let records := store.records ++ [ofComment hash (FilePath.basename path) comment]
    (AddsExactly fs file store hash path comment ↔
        store.isSuppressed hash path = true ∨
          (∃ e, fs.openForWriting file true = .error e) ∨ Survive records) ∧
      ((∀ s ∈ records, s.Storable) → Survive records) ∧
      ((∀ s ∈ store.records, ∃ q, FilePath.basename q = s.fileName) → Survive records →
        ∀ s ∈ records, s.Storable) := by
  intro records
  refine ⟨?_, fun hall => ?_, fun hn hsurvive => ?_⟩
  · by_cases ho : ∃ e, fs.openForWriting file true = .error e
    · obtain ⟨e, he⟩ := ho
      exact ⟨fun _ => .inr (.inl ⟨e, he⟩), fun _ => addsExactly_of_error hash path comment h he⟩
    · have hopen : ∀ e, fs.openForWriting file true ≠ .error e := fun e he => ho ⟨e, he⟩
      cases hs : store.isSuppressed hash path with
      | true =>
        exact ⟨fun _ => .inl rfl,
          fun _ => addsExactly_of_isSuppressed hash path comment h hopen hc hs⟩
      | false =>
        rw [addsExactly_iff_survive hash path comment h hopen hc hs]
        simp [ho, records]
  · refine survive_of_storable (List.forall_mem_append.2 ⟨?_, ?_⟩) hall
    · exact SuppressionFile.oneLine_of_load (openStore_eq_ok h).1
    · obtain ⟨-, hhash, hname⟩ := hall _ (List.mem_append_right _ List.mem_cons_self)
      exact List.forall_mem_singleton.2
        (oneLine_iff.2 ⟨hhash.2.1, hname.2.1, newline_not_mem_ofComment hash path comment⟩)
  · refine storable_of_survive (List.forall_mem_append.2 ⟨hn, ?_⟩) hsurvive
    exact List.forall_mem_singleton.2 ⟨path, rfl⟩

/-- A file with one record, in the root directory. -/
def oneRecordFiles : FileSystem :=
  (FileSystem.empty []).put ["s"] (.file "h||a.c||\n".toUTF8)

/-- The store over that file. -/
def oneRecordStore : SuppressionStore :=
  { backing := some "s", writable := true, records := [⟨"h", "a.c", ""⟩] }

theorem readText_oneRecordFiles : oneRecordFiles.readText "s" = .ok "h||a.c||\n" :=
  FileSystem.readText_alone (by rfl) "h||a.c||\n"

theorem accepts_oneRecordFiles : oneRecordFiles.Accepts "s" :=
  FileSystem.accepts_of_device rfl "s"

theorem openStore_oneRecordFiles :
    openStore oneRecordFiles (some "s") true = .ok oneRecordStore := by
  have hp : Suppression.parse "h||a.c||\n" "s" = .ok [⟨"h", "a.c", ""⟩] := by rfl
  exact openStore_of_load ((SuppressionFile.load_of_readText readText_oneRecordFiles).trans hp) true

theorem addsExactly_oneRecord :
    AddsExactly oneRecordFiles "s" oneRecordStore "k" "src/x.c" "seen\nbefore" := by
  obtain ⟨hiff, hstorable, -⟩ :=
    addsExactly_iff "k" "src/x.c" "seen\nbefore" openStore_oneRecordFiles
      accepts_oneRecordFiles.completes
  exact hiff.2 (.inr (.inr (hstorable (by decide))))

/-- A hash that is only a blank is written all the same, and the file does not load any more. -/
theorem not_addsExactly_blank :
    openStore oneRecordFiles (some "s") true = .ok oneRecordStore ∧
      ¬ AddsExactly oneRecordFiles "s" oneRecordStore " " "src/x.c" "" := by
  refine ⟨openStore_oneRecordFiles, fun hx => ?_⟩
  have hopen := accepts_oneRecordFiles.openForWriting_ne_error readText_oneRecordFiles true
  have hsurvive := (addsExactly_iff_survive " " "src/x.c" "" openStore_oneRecordFiles hopen
    accepts_oneRecordFiles.completes (by decide)).1 hx
  have hnames : ∀ s ∈ oneRecordStore.records ++ [ofComment " " (FilePath.basename "src/x.c") ""],
      ∃ q, FilePath.basename q = s.fileName :=
    List.forall_mem_append.2 ⟨List.forall_mem_singleton.2 ⟨"a.c", by decide⟩,
      List.forall_mem_singleton.2 ⟨"src/x.c", rfl⟩⟩
  have hblank := storable_of_survive hnames hsurvive _
    (List.mem_append_right _ List.mem_cons_self)
  exact absurd hblank (by decide)

end SuppressionStore

end Findings
