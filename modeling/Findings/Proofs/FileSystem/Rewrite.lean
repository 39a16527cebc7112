import Findings.Proofs.FileSystem.Agree

/-!
# Rewriting files on a device

An edit goes well wherever there is a text, or nothing yet. A device need not let it happen: it may
refuse to have a file opened or made, and a write may fail after any number of bytes. If it does
neither a rewriting is an edit, and whatever it does no other file changes.

* `Completes`, `Accepts`: a device that does not fail, or does not refuse either, at one file.
* `rewrite_of_openForWriting`, `edit_of_rewrite_eq_ok`: a rewriting that goes well is an edit.
* `RewriteEnds`: the ways in which rewriting a text ends. `rewrite_of_readText`,
  `rewrite_of_vacant`: there are no others, for a file that is there and for one that is made.
* `rewrite_of_readText_error`: what cannot be read is not rewritten.
* `eq_of_rewrite_eq_error`: unless a write fails, an error leaves the file system as it was.
* `rewrite_cases`, `agreeBut_rewrite`, `AgreeBut.rewrite`: other files are left alone and do not
  matter.
-/

namespace Findings.FileSystem

variable {α : Type} {fs fs' : FileSystem} {path : String} {place : Place} {create : Bool}
  {update : String → String × α}

/-- Writes of the file at a path do not fail once it is open. -/
def Completes (fs : FileSystem) (path : String) : Prop :=
  ∀ target, fs.resolve path = .ok target →
    ∀ old new, fs.device.fault target.place old new = none

/-- The device lets the file at a path be opened for writing and be written, and be made if there is
none. -/
structure Accepts (fs : FileSystem) (path : String) : Prop where
  opens : ∀ target, fs.resolve path = .ok target → fs.device.refusal target.place = none
  makes : ∀ target, fs.resolve path = .ok target → fs.node? target.place = none →
    fs.device.refusal target.place.dropLast = none
  completes : fs.Completes path

/-- Without instructions a device lets all writes happen. -/
theorem accepts_of_device (h : fs.device = {}) (path : String) : fs.Accepts path where
  opens _ _ := by rw [h]
  makes _ _ _ := by rw [h]
  completes _ _ _ _ := by rw [h]

section Put

variable {content : ByteArray} (hp : fs.node? place ≠ some .directory)
include hp

theorem Completes.put (h : fs.Completes path) :
    (fs.put place (.file content)).Completes path :=
  fun target ht => h target ((resolve_put_iff hp).1 ht)

theorem Accepts.put (h : fs.Accepts path) : (fs.put place (.file content)).Accepts path where
  opens target ht := h.opens target ((resolve_put_iff hp).1 ht)
  makes target ht hn := by
    refine h.makes target ((resolve_put_iff hp).1 ht) ?_
    by_cases he : target.place = place
    · have hne : place ≠ [] := by
        rintro rfl
        exact hp rfl
      rw [he, node?_put_self fs _ hne] at hn
      cases hn
    · rwa [node?_put_of_ne fs _ he] at hn
  completes := h.completes.put hp

end Put

/-! ## Opening files for writing -/

theorem openForWriting_eq_ok_iff {content : ByteArray} :
    fs.openForWriting path create = .ok (place, content, fs') ↔
      fs.openFile path create = .ok (place, content, fs') ∧ fs.refusal? place = none := by
  unfold openForWriting
  rcases fs.openFile path create with e | ⟨found, text, opened⟩
  · simp
  · cases hr : fs.refusal? found with
    | none =>
      simp only [hr, Except.ok.injEq, Prod.mk.injEq]
      exact ⟨fun h => ⟨h, h.1 ▸ hr⟩, And.left⟩
    | some e =>
      simp only [hr, reduceCtorEq, Except.ok.injEq, Prod.mk.injEq, false_iff, not_and]
      rintro ⟨rfl, -⟩
      simp [hr]

theorem Accepts.refusal? (h : fs.Accepts path) {target : Target}
    (ht : fs.resolve path = .ok target) : fs.refusal? target.place = none := by
  cases hn : fs.node? target.place with
  | none => simp [FileSystem.refusal?, hn, h.makes target ht hn]
  | some node => simp [FileSystem.refusal?, hn, h.opens target ht]

/-- What is accepted can be opened for writing if it can be opened at all. -/
theorem Accepts.openForWriting (h : fs.Accepts path) {content : ByteArray}
    (ho : fs.openFile path create = .ok (place, content, fs')) :
    fs.openForWriting path create = .ok (place, content, fs') := by
  obtain ⟨target, ht, rfl, -⟩ := openFile_eq_ok ho
  exact openForWriting_eq_ok_iff.2 ⟨ho, h.refusal? ht⟩

theorem Accepts.openForWriting_ne_error (h : fs.Accepts path) {text : String}
    (ht : fs.readText path = .ok text) (create : Bool) (e : AccessError) :
    fs.openForWriting path create ≠ .error e := by
  intro he
  obtain ⟨content, hr, -⟩ := bind_eq_ok_iff.1 ht
  obtain ⟨place, ho⟩ := openFile_of_read hr create
  rw [h.openForWriting ho] at he
  cases he

theorem device_of_openFile {content : ByteArray}
    (h : fs.openFile path create = .ok (place, content, fs')) : fs'.device = fs.device := by
  obtain ⟨target, -, -, -, ⟨-, rfl⟩ | ⟨-, -, -, rfl⟩⟩ := openFile_eq_ok h <;> rfl

/-- What is put over a file that has just been made could have been put at once. -/
theorem put_of_openFile {content : ByteArray}
    (h : fs.openFile path create = .ok (place, content, fs')) (node : Node) :
    fs'.put place node = fs.put place node := by
  obtain ⟨target, -, -, -, ⟨-, rfl⟩ | ⟨-, -, -, rfl⟩⟩ := openFile_eq_ok h
  · rfl
  · simp only [put, Entries.set_set]

/-! ## Rewriting and editing -/

/-- Once a file is open for writing, and if its writes do not fail, a rewriting is an edit. -/
theorem rewrite_of_openForWriting {opened : Place × ByteArray × FileSystem}
    (h : fs.openForWriting path create = .ok opened) (hc : fs.Completes path)
    (update : String → String × α) :
    fs.rewrite path create update =
      ((fs.edit path create update).1.mapError fun e => { error := .file e },
        (fs.edit path create update).2) := by
  obtain ⟨place, content, after⟩ := opened
  obtain ⟨ho, -⟩ := openForWriting_eq_ok_iff.1 h
  obtain ⟨target, ht, rfl, -⟩ := openFile_eq_ok ho
  simp only [rewrite, edit, h, ho]
  cases decodeText content with
  | error e => rfl
  | ok text =>
    simp only [overwrite, device_of_openFile ho, hc target ht]
    rfl

/-- A rewriting that the device accepts is an edit, errors included. -/
theorem rewrite_of_accepts (h : fs.Accepts path) (update : String → String × α) :
    fs.rewrite path create update =
      ((fs.edit path create update).1.mapError fun e => { error := .file e },
        (fs.edit path create update).2) := by
  cases ho : fs.openFile path create with
  | ok opened => exact rewrite_of_openForWriting (h.openForWriting ho) h.completes update
  | error e =>
    simp only [rewrite, edit, openForWriting, ho]
    rfl

theorem edit_of_rewrite_eq_ok {result : α} (h : fs.rewrite path create update = (.ok result, fs')) :
    fs.edit path create update = (.ok result, fs') := by
  unfold rewrite at h
  split at h
  · cases h
  · rename_i place content opened ho
    obtain ⟨ho, -⟩ := openForWriting_eq_ok_iff.1 ho
    simp only [edit, ho]
    cases hd : decodeText content with
    | error e =>
      rw [hd] at h
      cases h
    | ok text =>
      simp only [hd, overwrite] at h
      cases hf : opened.device.fault place content (update text).1.toUTF8 with
      | none => simpa only [hf, Prod.mk.injEq, Except.ok.injEq] using h
      | some fault =>
        simp only [hf] at h
        cases h

/-- What keeps a file from being opened for writing keeps it from being rewritten. -/
theorem rewrite_of_error {e : AccessError} (h : fs.openForWriting path create = .error e)
    (update : String → String × α) :
    fs.rewrite path create update = (.error { error := e }, fs) := by
  simp only [rewrite, h]

/-- What was written over the same content shows nowhere. -/
theorem torn_self (written : Nat) (content : ByteArray) :
    torn written content content = content := by
  unfold torn
  obtain h | h := Nat.le_total written content.size
  · rw [Nat.min_eq_left h, ByteArray.extract_append_extract, Nat.min_eq_left (Nat.zero_le _),
      Nat.max_eq_right h, ByteArray.extract_zero_size]
  · have hall : content.extract 0 written = content := by
      ext1
      rw [ByteArray.data_extract]
      exact Array.extract_eq_self_of_le h
    rw [Nat.min_eq_right h, hall, ByteArray.extract_same, ByteArray.append_empty]

/-! ## Rewriting texts -/

/-- How rewriting a text at a place ends. -/
inductive RewriteEnds (fs : FileSystem) (path : String) (create : Bool)
    (update : String → String × α) (place : Place) (text : String) : Prop
  /-- The device refuses to have the file opened for writing, or made. -/
  | refused {error : DeviceError} (hr : fs.refusal? place = some error)
      (hw : fs.rewrite path create update = (.error { error := .device error }, fs))
  /-- The write fails when a number of bytes has been written. -/
  | torn {fault : Fault} (hr : fs.refusal? place = none)
      (hf : fs.device.fault place text.toUTF8 (update text).1.toUTF8 = some fault)
      (hw : fs.rewrite path create update =
        (.error { error := .device fault.error, yielded := some (update text).2 },
          fs.put place
            (.file (torn fault.written text.toUTF8 (update text).1.toUTF8))))
  | written (hr : fs.refusal? place = none)
      (hf : fs.device.fault place text.toUTF8 (update text).1.toUTF8 = none)
      (hw : fs.rewrite path create update =
        (.ok (update text).2, fs.put place (.file (update text).1.toUTF8)))

/-- Rewriting a file that holds a text, or is made, fails before anything was written, or after some
of it was, or leaves the update there. -/
theorem rewriteEnds_of_openFile {text : String}
    (ho : fs.openFile path create = .ok (place, text.toUTF8, fs'))
    (update : String → String × α) : RewriteEnds fs path create update place text := by
  have hput := put_of_openFile ho
  have hd : decodeText text.toUTF8 = .ok text := decodeText_toUTF8 text
  cases hr : fs.refusal? place with
  | some error =>
    refine .refused hr (rewrite_of_error ?_ update)
    simp only [openForWriting, ho, hr]
  | none =>
    have hopen := openForWriting_eq_ok_iff.2 ⟨ho, hr⟩
    have hdevice := device_of_openFile ho
    cases hf : fs.device.fault place text.toUTF8 (update text).1.toUTF8 with
    | some fault =>
      exact .torn hr hf (by simp only [rewrite, hopen, hd, overwrite, hdevice, hf, hput])
    | none => exact .written hr hf (by simp only [rewrite, hopen, hd, overwrite, hdevice, hf, hput])

theorem rewrite_of_readText {text : String} (h : fs.readText path = .ok text) (create : Bool)
    (update : String → String × α) :
    ∃ place, fs.resolve path = .ok ⟨place, false⟩ ∧ fs.node? place = some (.file text.toUTF8) ∧
      RewriteEnds fs path create update place text := by
  obtain ⟨place, ht, hn⟩ := readText_eq_ok h
  have hopen : fs.openFile path create = .ok (place, text.toUTF8, fs) := by
    simp only [openFile, ht, bind, Except.bind, Bool.and_false, Bool.false_eq_true, if_false, hn]
  exact ⟨place, ht, hn, rewriteEnds_of_openFile hopen update⟩

/-- What the device refuses to have written is not rewritten. -/
theorem rewrite_of_refusal {text : String} {error : DeviceError} (h : fs.readText path = .ok text)
    (ht : fs.resolve path = .ok ⟨place, false⟩) (hr : fs.refusal? place = some error)
    (create : Bool) (update : String → String × α) :
    fs.rewrite path create update = (.error { error := .device error }, fs) := by
  obtain ⟨place', ht', -, hends⟩ := rewrite_of_readText h create update
  cases ht.symm.trans ht'
  cases hends with
  | refused hr' hw =>
    cases hr.symm.trans hr'
    exact hw
  | torn hr' _ _ => cases hr.symm.trans hr'
  | written hr' _ _ => cases hr.symm.trans hr'

/-- A file that is made is rewritten from the empty text. -/
theorem rewrite_of_vacant (ht : fs.resolve path = .ok ⟨place, false⟩)
    (hn : fs.node? place = none) (update : String → String × α) :
    RewriteEnds fs path true update place "" :=
  rewriteEnds_of_openFile (openFile_of_vacant ht hn) update

/-- A file that the device accepts and whose text can be read is rewritten. -/
theorem Accepts.rewrite_of_readText {text : String} (ha : fs.Accepts path)
    (h : fs.readText path = .ok text) (create : Bool) (update : String → String × α) :
    ∃ place, fs.resolve path = .ok ⟨place, false⟩ ∧
      fs.rewrite path create update =
        (.ok (update text).2, fs.put place (.file (update text).1.toUTF8)) := by
  obtain ⟨place, ht, -, hends⟩ := FileSystem.rewrite_of_readText h create update
  refine ⟨place, ht, ?_⟩
  cases hends with
  | refused hr _ => cases (ha.refusal? ht).symm.trans hr
  | torn _ hf _ => cases (ha.completes _ ht _ _).symm.trans hf
  | written _ _ hw => exact hw

/-- A file whose text cannot be read is not rewritten. The error is that of reading it, unless the
device refuses it first. -/
theorem rewrite_of_readText_error {e : FileError} (h : fs.readText path = .error e)
    (update : String → String × α) :
    ∃ error, fs.rewrite path false update = (.error { error }, fs) ∧
      (fs.Accepts path → error = .file e) := by
  have hedit := edit_of_readText_error h update
  cases ho : fs.openForWriting path false with
  | error error =>
    refine ⟨error, rewrite_of_error ho update, fun ha => ?_⟩
    have haccepted : fs.rewrite path false update = _ := rewrite_of_accepts ha update
    rw [rewrite_of_error ho, hedit] at haccepted
    cases haccepted
    rfl
  | ok opened =>
    obtain ⟨place, content, after⟩ := opened
    obtain ⟨hopen, -⟩ := openForWriting_eq_ok_iff.1 ho
    refine ⟨.file e, ?_, fun _ => rfl⟩
    simp only [edit, hopen] at hedit
    simp only [rewrite, ho]
    split at hedit
    · cases hedit
      rfl
    · cases hedit

/-- An error leaves the file system as it was, unless a write fails. A file that has been made is
empty, and that is a text. -/
theorem eq_of_rewrite_eq_error {error : RewriteError α} (hc : fs.Completes path)
    (h : fs.rewrite path create update = (.error error, fs')) : fs' = fs := by
  cases ho : fs.openForWriting path create with
  | error e =>
    rw [rewrite_of_error ho] at h
    exact (Prod.mk.inj h).2.symm
  | ok opened =>
    rw [rewrite_of_openForWriting ho hc] at h
    obtain ⟨place, content, after⟩ := opened
    obtain ⟨hopen, -⟩ := openForWriting_eq_ok_iff.1 ho
    simp only [edit, hopen] at h
    split at h
    · rename_i hd
      obtain ⟨target, -, -, -, ⟨-, rfl⟩ | ⟨-, -, rfl, -⟩⟩ := openFile_eq_ok hopen
      · exact (Prod.mk.inj h).2.symm
      · cases (decodeText_toUTF8 "").symm.trans hd
    · cases h

/-! ## Other files -/

/-- What a rewriting changes: nothing, or one file, that is new or had another content. -/
theorem rewrite_cases (fs : FileSystem) (path : String) (create : Bool)
    (update : String → String × α) :
    (fs.rewrite path create update).2 = fs ∨
      ∃ target content, fs.resolve path = .ok target ∧ fs.node? target.place ≠ some .directory ∧
        (fs.rewrite path create update).2 = fs.put target.place (.file content) := by
  unfold rewrite
  split
  · exact .inl rfl
  · rename_i place content opened ho
    obtain ⟨ho, -⟩ := openForWriting_eq_ok_iff.1 ho
    have hput := put_of_openFile ho
    obtain ⟨target, ht, rfl, -, hopened⟩ := openFile_eq_ok ho
    have hn : fs.node? target.place ≠ some .directory := by
      obtain ⟨hn, -⟩ | ⟨-, hn, -⟩ := hopened <;> simp [hn]
    split
    · obtain ⟨-, rfl⟩ | ⟨-, -, -, rfl⟩ := hopened
      · exact .inl rfl
      · exact .inr ⟨target, _, ht, hn, rfl⟩
    · rename_i text hd
      simp only [overwrite]
      cases opened.device.fault target.place content (update text).1.toUTF8 with
      | none => exact .inr ⟨target, _, ht, hn, hput _⟩
      | some fault => exact .inr ⟨target, _, ht, hn, hput _⟩

/-- Rewriting a file whose text can be read changes nothing but the content of this file. -/
theorem agreeBut_rewrite {text : String} {target : Target} (h : fs.readText path = .ok text)
    (ht : fs.resolve path = .ok target) (create : Bool) (update : String → String × α) :
    AgreeBut target.place fs (fs.rewrite path create update).2 := by
  obtain ⟨place, hp, hn, hends⟩ := rewrite_of_readText h create update
  obtain rfl := Except.ok.inj (ht.symm.trans hp)
  cases hends with
  | refused _ hw => rw [hw]; exact AgreeBut.refl hn
  | torn _ _ hw => rw [hw]; exact AgreeBut.put_self hn _
  | written _ _ hw => rw [hw]; exact AgreeBut.put_self hn _

theorem AgreeBut.overwrite (h : AgreeBut place fs fs') {other : Place} (hne : other ≠ place)
    (old new : ByteArray) :
    (fs.overwrite other old new).1 = (fs'.overwrite other old new).1 ∧
      AgreeBut place (fs.overwrite other old new).2 (fs'.overwrite other old new).2 := by
  unfold FileSystem.overwrite
  rw [← h.device]
  cases fs.device.fault other old new with
  | none => exact ⟨rfl, h.put hne _⟩
  | some fault => exact ⟨rfl, h.put hne _⟩

/-- Rewriting another file does the same to both. -/
theorem AgreeBut.rewrite (h : AgreeBut place fs fs') (ha : fs.Avoids path place) (create : Bool)
    (update : String → String × α) :
    (fs.rewrite path create update).1 = (fs'.rewrite path create update).1 ∧
      AgreeBut place (fs.rewrite path create update).2 (fs'.rewrite path create update).2 := by
  unfold FileSystem.rewrite FileSystem.openForWriting
  obtain ⟨e, he, he'⟩ | ⟨opened, content, after, after', hne, ho, ho', hafter⟩ :=
    h.openFile ha create
  · rw [he, he']
    exact ⟨rfl, h⟩
  · have hrefusal : fs.refusal? opened = fs'.refusal? opened := by
      simp only [refusal?, h.device, h.elsewhere opened hne]
    cases hr : fs'.refusal? opened with
    | some e => simpa only [ho, ho', hrefusal, hr] using ⟨trivial, h⟩
    | none =>
      simp only [ho, ho', hrefusal, hr]
      cases decodeText content with
      | error e => exact ⟨rfl, hafter⟩
      | ok text =>
        obtain ⟨hresult, hwritten⟩ := hafter.overwrite hne content (update text).1.toUTF8
        dsimp only
        revert hresult hwritten
        rcases after.overwrite opened content (update text).1.toUTF8 with ⟨result, written⟩
        rcases after'.overwrite opened content (update text).1.toUTF8 with ⟨result', written'⟩
        rintro rfl hwritten
        cases result with
        | ok _ => exact ⟨rfl, hwritten⟩
        | error _ => exact ⟨rfl, hwritten⟩

end Findings.FileSystem
