import Findings.FileSystem
import Findings.Proofs.Result

/-!
# Reading what was written

A write changes the content of one file and no directory, so every path that could be followed
before it leads to the same place after it.

* `resolve_mono`: where paths lead depends on the directories alone. `resolve_put`: following a path
  after a write.
* `edit_of_openFile`, `edit_of_readText`: where every write happens, a file that can be opened, or
  read, can be edited, and the update is read back.
* `edit_of_readText_error`: a file that cannot be read is not edited.
* `edit_eq_ok`: what an edit that returns something has read and written, also one that makes the
  file.
-/

namespace Findings.FileSystem

variable {fs fs' : FileSystem} {path : String} {place : Place} {node : Node}

/-! ## Following paths after a write -/

/-- Names are followed from directory to directory. -/
theorem enter_cons_eq_ok_iff {here there : Place} {name : String} {names : List String} :
    fs.enter here (name :: names) = .ok there ↔
      ∃ next, descend here name = .ok next ∧ fs.node? next = some .directory ∧
        fs.enter next names = .ok there := by
  rw [enter, bind_eq_ok_iff]
  refine exists_congr fun next => and_congr_right fun _ => ?_
  cases fs.node? next with
  | none => simp
  | some node => cases node <;> simp

/-- Names that can be followed lead to the same place where all directories are still there. -/
theorem enter_mono
    (hd : ∀ place, fs.node? place = some .directory → fs'.node? place = some .directory)
    {here there : Place} {names : List String} (h : fs.enter here names = .ok there) :
    fs'.enter here names = .ok there := by
  induction names generalizing here with
  | nil => exact h
  | cons name names ih =>
    obtain ⟨next, hn, hdir, h⟩ := enter_cons_eq_ok_iff.1 h
    exact enter_cons_eq_ok_iff.2 ⟨next, hn, hd next hdir, ih h⟩

/-- Where a path leads: to where it starts if it has no names, and else on from the directory that
all names but the last lead to. -/
theorem resolve_eq_ok_iff {target : Target} : fs.resolve path = .ok target ↔
    (path.toList.contains '\x00' = false ∧ path.isEmpty = false ∧ path.utf8ByteSize ≤ maxPath) ∧
      ((namesOf path).getLast? = none ∧ target = ⟨fs.startOf path, false⟩ ∨
        ∃ last here, (namesOf path).getLast? = some last ∧
          fs.enter (fs.startOf path) (namesOf path).dropLast = .ok here ∧
          descend here last = .ok target.place ∧
          target.wantsDirectory =
            (path.toList.getLast? = some '/' && last ≠ "." && last ≠ "..")) := by
  unfold resolve
  cases hz : path.toList.contains '\x00' with
  | true => simp only [if_true, reduceCtorEq, false_and]
  | false =>
    cases he : path.isEmpty with
    | true => simp only [Bool.false_eq_true, if_true, if_false, reduceCtorEq, false_and, and_false]
    | false =>
      by_cases hm : maxPath < path.utf8ByteSize
      · simp only [hm, Bool.false_eq_true, if_true, if_false, reduceCtorEq, Nat.not_le.2 hm,
          and_false, false_and]
      simp only [hm, Nat.not_lt.1 hm, Bool.false_eq_true, if_false, true_and]
      cases hl : (namesOf path).getLast? with
      | none =>
        simp only [true_and, reduceCtorEq, false_and, exists_false, or_false, Except.ok.injEq,
          eq_comm]
      | some last =>
        simp only [reduceCtorEq, false_and, false_or, bind_eq_ok_iff, Except.ok.injEq,
          Option.some.injEq]
        constructor
        · rintro ⟨here, hhere, place, hplace, rfl⟩
          exact ⟨last, here, rfl, hhere, hplace, rfl⟩
        · rintro ⟨_, here, rfl, hhere, hplace, hwants⟩
          exact ⟨here, hhere, target.place, hplace, by rw [← hwants]⟩

theorem resolve_mono {target : Target} (h : fs.resolve path = .ok target)
    (hw : fs'.workingDirectory = fs.workingDirectory)
    (hd : ∀ place, fs.node? place = some .directory → fs'.node? place = some .directory) :
    fs'.resolve path = .ok target := by
  have hs : fs'.startOf path = fs.startOf path := by rw [startOf, startOf, hw]
  rw [resolve_eq_ok_iff] at h ⊢
  rw [hs]
  exact h.imp_right (Or.imp_right fun ⟨last, here, hl, he, hlast⟩ =>
    ⟨last, here, hl, enter_mono hd he, hlast⟩)

/-- A directory stays one when something is put where no directory is. -/
theorem node?_put_directory (hp : fs.node? place ≠ some .directory) {other : Place}
    (h : fs.node? other = some .directory) :
    (fs.put place node).node? other = some .directory := by
  have hne : other ≠ place := by
    rintro rfl
    exact hp h
  rw [node?_put_of_ne fs node hne, h]

theorem resolve_put (hp : fs.node? place ≠ some .directory) {target : Target}
    (h : fs.resolve path = .ok target) : (fs.put place node).resolve path = .ok target :=
  resolve_mono h rfl fun _ => node?_put_directory hp

/-! ## Reading and writing one file -/

theorem read_of_file {target : Target} {content : ByteArray} (h : fs.resolve path = .ok target)
    (hw : target.wantsDirectory = false) (hn : fs.node? target.place = some (.file content)) :
    fs.read path = .ok content := by
  simp [read, h, hn, hw, bind, Except.bind]

theorem read_eq_ok {content : ByteArray} (h : fs.read path = .ok content) :
    ∃ target, fs.resolve path = .ok target ∧ target.wantsDirectory = false ∧
      fs.node? target.place = some (.file content) := by
  obtain ⟨target, ht, h⟩ := bind_eq_ok_iff.1 h
  refine ⟨target, ht, ?_⟩
  cases hn : fs.node? target.place with
  | none => simp [hn] at h
  | some node =>
    cases node with
    | directory => simp [hn] at h
    | file found =>
      simp only [hn] at h
      split at h <;> simp_all

theorem eq_toUTF8_of_decodeText {content : ByteArray} {text : String}
    (h : decodeText content = .ok text) : content = text.toUTF8 := by
  unfold decodeText at h
  split at h
  · rename_i decoded hd
    obtain rfl := Except.ok.inj h
    unfold String.fromUTF8? at hd
    split at hd
    · obtain rfl := Option.some.inj hd
      rfl
    · cases hd
  · cases h

/-- A text that can be read is what the file holds that the path leads to. -/
theorem readText_eq_ok {text : String} (h : fs.readText path = .ok text) :
    ∃ place, fs.resolve path = .ok ⟨place, false⟩ ∧ fs.node? place = some (.file text.toUTF8) := by
  obtain ⟨content, hread, hd⟩ := bind_eq_ok_iff.1 h
  obtain rfl := eq_toUTF8_of_decodeText hd
  obtain ⟨⟨place, _⟩, ht, rfl, hn⟩ := read_eq_ok hread
  exact ⟨place, ht, hn⟩

/-- A text that is put where a path leads is read there. -/
theorem readText_put {target : Target} (h : fs.resolve path = .ok target)
    (hw : target.wantsDirectory = false) (hp : fs.node? target.place ≠ some .directory)
    (text : String) :
    (fs.put target.place (.file text.toUTF8)).readText path = .ok text := by
  have hne : target.place ≠ [] := by
    intro he
    simp [node?, he] at hp
  have ht : (fs.put target.place (.file text.toUTF8)).resolve path = .ok target :=
    resolve_put hp h
  have hr := read_of_file ht hw (node?_put_self fs _ hne)
  simp only [readText, hr, bind, Except.bind, decodeText_toUTF8]

/-- The only file there is is read by its name. -/
theorem readText_alone {name : String} (h : (empty []).resolve name = .ok ⟨[name], false⟩)
    (text : String) : ((empty []).put [name] (.file text.toUTF8)).readText name = .ok text :=
  readText_put h rfl (by simp [empty, node?]) text

/-- What an opened file is: one that was there, or one that has just been made. -/
theorem openFile_eq_ok {create : Bool} {content : ByteArray}
    (h : fs.openFile path create = .ok (place, content, fs')) :
    ∃ target, fs.resolve path = .ok target ∧ target.place = place ∧
      target.wantsDirectory = false ∧
      (fs.node? place = some (.file content) ∧ fs' = fs ∨
        create = true ∧ fs.node? place = none ∧ content = .empty ∧
          fs' = fs.put place (.file .empty)) := by
  obtain ⟨target, ht, h⟩ := bind_eq_ok_iff.1 h
  refine ⟨target, ht, ?_⟩
  split at h
  · simp at h
  · rename_i hc
    cases hn : fs.node? target.place with
    | none =>
      simp only [hn] at h
      split at h
      · rename_i hcreate
        simp only [Except.ok.injEq, Prod.mk.injEq] at h
        obtain ⟨rfl, rfl, rfl⟩ := h
        simp_all
      · simp at h
    | some node =>
      cases node with
      | directory => simp [hn] at h
      | file found =>
        simp only [hn] at h
        split at h <;> simp_all

theorem openFile_of_read {content : ByteArray} (h : fs.read path = .ok content) (create : Bool) :
    ∃ place, fs.openFile path create = .ok (place, content, fs) := by
  obtain ⟨target, ht, hw, hn⟩ := read_eq_ok h
  exact ⟨target.place, by simp [openFile, ht, hw, hn, bind, Except.bind]⟩

/-- A file that cannot be read cannot be opened, if none may be made. -/
theorem openFile_of_read_error {e : FileError} (h : fs.read path = .error e) :
    fs.openFile path false = .error e := by
  unfold read at h
  unfold openFile
  cases ht : fs.resolve path with
  | error e' => simpa only [ht, bind, Except.bind, Except.error.injEq] using h
  | ok target =>
    simp only [ht, bind, Except.bind, Bool.false_and, Bool.false_eq_true, if_false] at h ⊢
    cases hn : fs.node? target.place with
    | none => simpa only [hn, Except.error.injEq] using h
    | some node =>
      cases node with
      | directory => simpa only [hn, Except.error.injEq] using h
      | file content =>
        simp only [hn] at h ⊢
        split at h <;> simp_all

/-- An edit of a file that can be opened and holds text writes the update, which is read back. -/
theorem edit_of_openFile {α : Type} {create : Bool} {content : ByteArray} {text : String}
    (h : fs.openFile path create = .ok (place, content, fs')) (hd : decodeText content = .ok text)
    (update : String → String × α) :
    ∃ after, fs.edit path create update = (.ok (update text).2, after) ∧
      after.readText path = .ok (update text).1 := by
  refine ⟨fs'.put place (.file (update text).1.toUTF8), by simp only [edit, h, hd], ?_⟩
  obtain ⟨target, ht, rfl, hw, ⟨hn, rfl⟩ | ⟨-, hn, -, rfl⟩⟩ := openFile_eq_ok h
  · exact readText_put ht hw (by simp [hn]) _
  · have hp : fs.node? target.place ≠ some .directory := by simp [hn]
    have hne : target.place ≠ [] := by
      intro he
      simp [node?, he] at hn
    exact readText_put (resolve_put hp ht) hw (by simp [node?_put_self _ _ hne]) _

/-- A file whose text can be read can be edited. -/
theorem edit_of_readText {α : Type} {text : String} (h : fs.readText path = .ok text)
    (create : Bool) (update : String → String × α) :
    ∃ after, fs.edit path create update = (.ok (update text).2, after) ∧
      after.readText path = .ok (update text).1 := by
  obtain ⟨content, hr, hd⟩ := bind_eq_ok_iff.1 h
  obtain ⟨place, ho⟩ := openFile_of_read hr create
  exact edit_of_openFile ho hd update

/-- An edit of a file whose text cannot be read changes nothing, and fails as reading does. -/
theorem edit_of_readText_error {α : Type} {e : FileError} (h : fs.readText path = .error e)
    (update : String → String × α) : fs.edit path false update = (.error e, fs) := by
  cases hr : fs.read path with
  | error e' =>
    obtain rfl : e' = e := by simpa [readText, hr, bind, Except.bind] using h
    rw [edit, openFile_of_read_error hr]
  | ok content =>
    have hd : decodeText content = .error e := by simpa [readText, hr, bind, Except.bind] using h
    obtain ⟨place, ho⟩ := openFile_of_read hr false
    simp only [edit, ho, hd]

theorem decodeText_eq_notFound {content : ByteArray} : decodeText content ≠ .error .notFound := by
  unfold decodeText
  split <;> simp

/-- Opening a file that is not there gives an empty one. -/
theorem content_of_openFile {create : Bool} {content : ByteArray}
    (h : fs.openFile path create = .ok (place, content, fs'))
    (hr : fs.readText path = .error .notFound) : content = .empty := by
  obtain ⟨target, ht, rfl, hw, ⟨hn, rfl⟩ | ⟨-, -, he, -⟩⟩ := openFile_eq_ok h
  · have hd : decodeText content = .error .notFound := by
      simpa [readText, read_of_file ht hw hn, bind, Except.bind] using hr
    exact absurd hd decodeText_eq_notFound
  · exact he

/-! ## What an edit did -/

/-- Putting what is there changes nothing. -/
theorem put_of_node? (hne : place ≠ []) (h : fs.node? place = some node) :
    fs.put place node = fs := by
  rw [node?, if_neg hne] at h
  rw [put, Entries.set_of_get? h]

/-- An edit that returns something has put the update of a text at the place that the path leads to:
of the text that was there, or of the empty one where there was no file and one may be made. -/
theorem edit_eq_ok {α : Type} {create : Bool} {update : String → String × α} {result : α}
    (h : fs.edit path create update = (.ok result, fs')) :
    ∃ place text, fs.resolve path = .ok ⟨place, false⟩ ∧ place ≠ [] ∧ result = (update text).2 ∧
      fs' = fs.put place (.file (update text).1.toUTF8) ∧
      (fs.node? place = some (.file text.toUTF8) ∨
        create = true ∧ fs.node? place = none ∧ text = "") := by
  unfold edit at h
  split at h
  · cases h
  · rename_i place content opened ho
    split at h
    · cases h
    · rename_i text hd
      obtain rfl := eq_toUTF8_of_decodeText hd
      obtain ⟨⟨_, wants⟩, ht, rfl, hw, hopened⟩ := openFile_eq_ok ho
      obtain rfl : wants = false := hw
      cases h
      refine ⟨_, text, ht, ?_, rfl, ?_⟩
      · rintro rfl
        obtain ⟨hn, -⟩ | ⟨-, hn, -⟩ := hopened <;> cases hn
      · obtain ⟨hn, rfl⟩ | ⟨hc, hn, he, rfl⟩ := hopened
        · exact ⟨rfl, .inl hn⟩
        · refine ⟨by simp only [put, Entries.set_set], .inr ⟨hc, hn, ?_⟩⟩
          exact String.toByteArray_inj.1 (he.trans rfl)

theorem openFile_of_vacant (ht : fs.resolve path = .ok ⟨place, false⟩)
    (hn : fs.node? place = none) :
    fs.openFile path true = .ok (place, .empty, fs.put place (.file .empty)) := by
  simp only [openFile, ht, hn, bind, Except.bind, Bool.and_false, Bool.false_eq_true, if_false,
    if_true]

end Findings.FileSystem
