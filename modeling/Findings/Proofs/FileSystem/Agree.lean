import Findings.Proofs.FileSystem

/-!
# File systems that differ in one file

What a file holds decides nothing about where paths lead. So two file systems that hold the same but
for the content of one file cannot be told apart by paths that lead elsewhere.

* `AgreeBut`: the same everywhere but at one place, where both have a file.
* `AgreeBut.resolve`, `AgreeBut.readText`, `AgreeBut.openFile`: following, reading and opening
  paths.
* `resolve_put_iff`, `readText_put_iff`: a file that is put in a file system, also a new one,
  changes neither where paths lead nor what is read elsewhere.
-/

namespace Findings.FileSystem

variable {fs fs' : FileSystem} {path : String} {place : Place}

/-- A path does not lead to a place. -/
def Avoids (fs : FileSystem) (path : String) (place : Place) : Prop :=
  ∀ target, fs.resolve path = .ok target → target.place ≠ place

/-- Two paths do not lead to the same place. -/
def Apart (fs : FileSystem) (path other : String) : Prop :=
  ∀ target, fs.resolve other = .ok target → fs.Avoids path target.place

/-- Two file systems on one device hold the same but at one place, where both have a file. -/
structure AgreeBut (place : Place) (fs fs' : FileSystem) : Prop where
  workingDirectory : fs.workingDirectory = fs'.workingDirectory
  device : fs.device = fs'.device
  elsewhere : ∀ other ≠ place, fs.node? other = fs'.node? other
  first : ∃ content, fs.node? place = some (.file content)
  second : ∃ content, fs'.node? place = some (.file content)

namespace AgreeBut

theorem refl {content : ByteArray} (h : fs.node? place = some (.file content)) :
    AgreeBut place fs fs :=
  ⟨rfl, rfl, fun _ _ => rfl, ⟨content, h⟩, ⟨content, h⟩⟩

theorem symm (h : AgreeBut place fs fs') : AgreeBut place fs' fs :=
  ⟨h.workingDirectory.symm, h.device.symm, fun other hne => (h.elsewhere other hne).symm, h.second,
    h.first⟩

theorem trans {fs₁ fs₂ fs₃ : FileSystem} (h : AgreeBut place fs₁ fs₂)
    (h' : AgreeBut place fs₂ fs₃) : AgreeBut place fs₁ fs₃ :=
  ⟨h.workingDirectory.trans h'.workingDirectory, h.device.trans h'.device,
    fun other hne => (h.elsewhere other hne).trans (h'.elsewhere other hne), h.first, h'.second⟩

/-- Where there is a file its content may be replaced. -/
theorem put_self {content : ByteArray} (h : fs.node? place = some (.file content))
    (replaced : ByteArray) : AgreeBut place fs (fs.put place (.file replaced)) := by
  have hne : place ≠ [] := by
    rintro rfl
    simp [node?] at h
  exact ⟨rfl, rfl, fun other ho => (node?_put_of_ne fs _ ho).symm, ⟨content, h⟩,
    ⟨replaced, node?_put_self fs _ hne⟩⟩

section

variable (h : AgreeBut place fs fs')
include h

theorem put {other : Place} (hne : other ≠ place) (node : Node) :
    AgreeBut place (fs.put other node) (fs'.put other node) where
  workingDirectory := h.workingDirectory
  device := h.device
  elsewhere next hnext := by
    by_cases hroot : next = []
    · simp [node?, hroot]
    · by_cases he : next = other
      · subst he
        rw [node?_put_self fs node hroot, node?_put_self fs' node hroot]
      · rw [node?_put_of_ne fs node he, node?_put_of_ne fs' node he, h.elsewhere next hnext]
  first := by
    rw [node?_put_of_ne fs node hne.symm]
    exact h.first
  second := by
    rw [node?_put_of_ne fs' node hne.symm]
    exact h.second

theorem enter (here : Place) (names : List String) :
    fs.enter here names = fs'.enter here names := by
  induction names generalizing here with
  | nil => rfl
  | cons name names ih =>
    simp only [FileSystem.enter]
    cases descend here name with
    | error e => rfl
    | ok next =>
      simp only [bind, Except.bind]
      by_cases he : next = place
      · -- A path that goes on from a file leads nowhere, whatever the file holds.
        obtain ⟨content, hc⟩ := h.first
        obtain ⟨content', hc'⟩ := h.second
        rw [he, hc, hc']
      · rw [h.elsewhere next he]
        cases fs'.node? next with
        | none => rfl
        | some node =>
          cases node with
          | file content => rfl
          | directory => exact ih next

theorem resolve (path : String) : fs.resolve path = fs'.resolve path := by
  have hs : fs.startOf path = fs'.startOf path := by
    unfold startOf
    rw [h.workingDirectory]
  unfold FileSystem.resolve
  simp only [hs, h.enter]

theorem avoids_iff {other : Place} : fs.Avoids path other ↔ fs'.Avoids path other := by
  rw [Avoids, Avoids, h.resolve]

theorem apart_iff {other : String} : fs.Apart path other ↔ fs'.Apart path other := by
  simp only [Apart, h.avoids_iff, h.resolve]

theorem read (ha : fs.Avoids path place) : fs.read path = fs'.read path := by
  unfold FileSystem.read
  rw [← h.resolve path]
  cases hr : fs.resolve path with
  | error e => rfl
  | ok target =>
    simp only [bind, Except.bind]
    rw [h.elsewhere target.place (ha target hr)]

theorem readText (ha : fs.Avoids path place) : fs.readText path = fs'.readText path := by
  unfold FileSystem.readText
  rw [h.read ha]

/-- Another file is opened in both or in neither, and holds the same. -/
theorem openFile (ha : fs.Avoids path place) (create : Bool) :
    (∃ e, fs.openFile path create = .error e ∧ fs'.openFile path create = .error e) ∨
      ∃ opened content after after', opened ≠ place ∧
        fs.openFile path create = .ok (opened, content, after) ∧
        fs'.openFile path create = .ok (opened, content, after') ∧
        AgreeBut place after after' := by
  unfold FileSystem.openFile
  rw [← h.resolve path]
  cases hr : fs.resolve path with
  | error e => exact .inl ⟨e, rfl, rfl⟩
  | ok target =>
    have hne := ha target hr
    simp only [bind, Except.bind]
    rw [← h.elsewhere target.place hne]
    split
    · exact .inl ⟨_, rfl, rfl⟩
    · split
      · exact .inl ⟨_, rfl, rfl⟩
      · split
        · exact .inl ⟨_, rfl, rfl⟩
        · exact .inr ⟨_, _, fs, fs', hne, rfl, rfl, h⟩
      · split
        · exact .inr ⟨_, _, _, _, hne, rfl, rfl, h.put hne _⟩
        · exact .inl ⟨_, rfl, rfl⟩

end

end AgreeBut

/-! ## Putting files -/

section Put

variable {content : ByteArray} (hp : fs.node? place ≠ some .directory)
include hp

theorem resolve_put_iff {target : Target} :
    (fs.put place (.file content)).resolve path = .ok target ↔ fs.resolve path = .ok target := by
  refine ⟨fun h => resolve_mono h rfl fun other ho => ?_, resolve_put hp⟩
  by_cases he : other = place
  · -- The new file is no directory to go on from.
    have hne : place ≠ [] := by
      rintro rfl
      exact hp rfl
    rw [he, node?_put_self fs _ hne] at ho
    cases ho
  · rwa [node?_put_of_ne fs _ he] at ho

theorem avoids_put_iff {other : Place} :
    (fs.put place (.file content)).Avoids path other ↔ fs.Avoids path other := by
  simp only [Avoids, resolve_put_iff hp]

theorem apart_put_iff {other : String} :
    (fs.put place (.file content)).Apart path other ↔ fs.Apart path other := by
  simp only [Apart, resolve_put_iff hp, avoids_put_iff hp]

theorem readText_put_iff (ha : fs.Avoids path place) {text : String} :
    (fs.put place (.file content)).readText path = .ok text ↔ fs.readText path = .ok text := by
  have hread (found : ByteArray) :
      (fs.put place (.file content)).read path = .ok found ↔ fs.read path = .ok found := by
    constructor
    · intro h
      obtain ⟨target, ht, hw, hn⟩ := read_eq_ok h
      have ht := (resolve_put_iff hp).1 ht
      rw [node?_put_of_ne fs _ (ha target ht)] at hn
      exact read_of_file ht hw hn
    · intro h
      obtain ⟨target, ht, hw, hn⟩ := read_eq_ok h
      refine read_of_file ((resolve_put_iff hp).2 ht) hw ?_
      rwa [node?_put_of_ne fs _ (ha target ht)]
  simp only [readText, bind_eq_ok_iff, hread]

end Put

end Findings.FileSystem
