import Findings.Entries
import Findings.FilePath

/-!
# File systems

A file system is a value: a tree of directories and files, a working directory, and the device that
all of it is on. Operations on files take it and return the one after them, so that what an
operation leaves alone can be stated.

A path is followed part by part. Every part but the last has to lead to a directory; a slash at the
end asks for a directory too. A device may refuse to have a file written, and a write may fail when
only some of the bytes have been written.

- `FileSystem.readText`: the text of a file.
- `FileSystem.rewrite`: reads a file, and replaces its content by a function of it.
- `FileSystem.edit`: what that comes to where the device lets every write happen.
-/

namespace Findings

-- Contents are compared by the test of the core library, whatever else is imported.
attribute [instance (high)] ByteArray.instDecidableEq

/-- A file or a directory. -/
inductive Node where
  | directory
  | file (content : ByteArray)
  deriving DecidableEq

/-- The names on the way from the root to a file or directory. -/
abbrev Place := List String

/-- Why a file could not be read or written. -/
inductive FileError where
  | notFound
  | notADirectory
  | isADirectory
  | invalidText
  | nameTooLong
  | nulInPath
  deriving DecidableEq, Repr

namespace FileError

/-- The wording of the system that opens the files. -/
def message : FileError → String
  | notFound => "No such file or directory (os error 2)"
  | notADirectory => "Not a directory (os error 20)"
  | isADirectory => "Is a directory (os error 21)"
  | invalidText => "stream did not contain valid UTF-8"
  | nameTooLong => "File name too long (os error 36)"
  | nulInPath => "file name contained an unexpected NUL byte"

end FileError

/-- Why a device does not let a file be written. -/
inductive DeviceError where
  | permissionDenied
  | readOnly
  | noSpace
  | failed
  deriving DecidableEq, Repr

namespace DeviceError

/-- The wording of the system that the device belongs to. -/
def message : DeviceError → String
  | permissionDenied => "Permission denied (os error 13)"
  | readOnly => "Read-only file system (os error 30)"
  | noSpace => "No space left on device (os error 28)"
  | failed => "Input/output error (os error 5)"

end DeviceError

/-- Why a file could not be opened, read or written. -/
inductive AccessError where
  | file (error : FileError)
  | device (error : DeviceError)
  deriving DecidableEq, Repr

namespace AccessError

def message : AccessError → String
  | file e => e.message
  | device e => e.message

end AccessError

/-- How a write fails: after how many bytes, and why. -/
structure Fault where
  written : Nat
  error : DeviceError

/-- What a device does with writes. Unless told otherwise it lets all of them happen. -/
structure Device where
  /-- Why the file or directory at a place may not be opened for writing. -/
  refusal : Place → Option DeviceError := fun _ => none
  /-- How it fails to write a content over the old one of the file at a place. -/
  fault : Place → (old new : ByteArray) → Option Fault := fun _ _ _ => none

/-- A tree of files below the root, listed by place, the working directory, and the device. The root
itself is not listed. -/
structure FileSystem where
  workingDirectory : Place
  nodes : List (Place × Node)
  device : Device := {}

namespace FileSystem

/-- Only the root and the directories down to `workingDirectory`. -/
def empty (workingDirectory : Place) : FileSystem :=
  { workingDirectory
    nodes := (List.range workingDirectory.length).map fun i =>
      (workingDirectory.take (i + 1), .directory) }

/-- What stands at a place. -/
def node? (fs : FileSystem) (place : Place) : Option Node :=
  if place = [] then some .directory else Entries.get? place fs.nodes

/-- Puts `node` at a place, over what was there. -/
def put (fs : FileSystem) (place : Place) (node : Node) : FileSystem :=
  { fs with nodes := Entries.set place node fs.nodes }

/-- Takes away what is at a place. -/
def erase (fs : FileSystem) (place : Place) : FileSystem :=
  { fs with nodes := Entries.erase place fs.nodes }

/-! ## Following paths -/

/-- The longest name of a file, in bytes. -/
def maxName : Nat := 255

/-- The longest path that can be followed, in bytes. -/
def maxPath : Nat := 4095

/-- Where a path leads. -/
structure Target where
  place : Place
  /-- The path ends in a slash after a name, so it asks for a directory. -/
  wantsDirectory : Bool

/-- The place that a name leads to from a directory. The place may be vacant. -/
def descend (here : Place) (name : String) : Except FileError Place :=
  if name = "." then .ok here
  else if name = ".." then .ok here.dropLast
  else if maxName < name.utf8ByteSize then .error .nameTooLong
  else .ok (here ++ [name])

/-- The directory that a list of names leads to. -/
def enter (fs : FileSystem) : Place → List String → Except FileError Place
  | here, [] => .ok here
  | here, name :: names => do
    let next ← descend here name
    match fs.node? next with
    | none => .error .notFound
    | some (.file _) => .error .notADirectory
    | some .directory => fs.enter next names

/-- The names that lead along a path. -/
def namesOf (path : String) : List String :=
  (FilePath.pieces path).filter (· ≠ "")

/-- The directory at which a path starts. -/
def startOf (fs : FileSystem) (path : String) : Place :=
  if FilePath.isAbsolute path then [] else fs.workingDirectory

/-- Follows a path. The last part need not exist. -/
def resolve (fs : FileSystem) (path : String) : Except FileError Target := do
  if path.toList.contains '\x00' then .error .nulInPath
  else if path.isEmpty then .error .notFound
  else if maxPath < path.utf8ByteSize then .error .nameTooLong
  else
    let names := namesOf path
    match names.getLast? with
    | none => .ok ⟨fs.startOf path, false⟩
    | some last =>
      let here ← fs.enter (fs.startOf path) names.dropLast
      let place ← descend here last
      .ok ⟨place, path.toList.getLast? = some '/' && last ≠ "." && last ≠ ".."⟩

/-! ## Reading and writing -/

/-- The bytes of the file a path leads to. -/
def read (fs : FileSystem) (path : String) : Except FileError ByteArray := do
  let target ← fs.resolve path
  match fs.node? target.place with
  | none => .error .notFound
  | some .directory => .error .isADirectory
  | some (.file content) =>
    if target.wantsDirectory then .error .notADirectory else .ok content

/-- The text that bytes encode. -/
def decodeText (content : ByteArray) : Except FileError String :=
  match String.fromUTF8? content with
  | some text => .ok text
  | none => .error .invalidText

/-- The text of the file a path leads to. -/
def readText (fs : FileSystem) (path : String) : Except FileError String := do
  decodeText (← fs.read path)

/-- Whether a path leads to a file. -/
def isFile (fs : FileSystem) (path : String) : Bool :=
  match fs.read path with
  | .ok _ => true
  | .error _ => false

/-- The place of the file a path leads to, its content, and the file system once it is open: with
`create`, a vacant place gets an empty file. -/
def openFile (fs : FileSystem) (path : String) (create : Bool) :
    Except FileError (Place × ByteArray × FileSystem) := do
  let target ← fs.resolve path
  if create && target.wantsDirectory then .error .isADirectory
  else
    match fs.node? target.place with
    | some .directory => .error .isADirectory
    | some (.file content) =>
      if target.wantsDirectory then .error .notADirectory
      else .ok (target.place, content, fs)
    | none =>
      if create then .ok (target.place, .empty, fs.put target.place (.file .empty))
      else .error .notFound

/-- Why a file may not be opened for writing. Making one writes the directory that it is put in. -/
def refusal? (fs : FileSystem) (place : Place) : Option DeviceError :=
  fs.device.refusal (if (fs.node? place).isSome then place else place.dropLast)

/-- Opens a file for reading and writing. -/
def openForWriting (fs : FileSystem) (path : String) (create : Bool) :
    Except AccessError (Place × ByteArray × FileSystem) :=
  match fs.openFile path create with
  | .error e => .error (.file e)
  | .ok (place, content, opened) =>
    match fs.refusal? place with
    | some e => .error (.device e)
    | none => .ok (place, content, opened)

/-- The content of a file of which only a number of bytes has been written over the old one. -/
def torn (written : Nat) (old new : ByteArray) : ByteArray :=
  new.extract 0 written ++ old.extract (min written new.size) old.size

/-- Writes a content over the old one of a file, and cuts off what is left of the old one. -/
def overwrite (fs : FileSystem) (place : Place) (old new : ByteArray) :
    Except DeviceError Unit × FileSystem :=
  match fs.device.fault place old new with
  | none => (.ok (), fs.put place (.file new))
  | some fault => (.error fault.error, fs.put place (.file (torn fault.written old new)))

/-- Why a file was not rewritten, and what the update had yielded if it was come to. -/
structure RewriteError (α : Type) where
  error : AccessError
  yielded : Option α := none

/-- Replaces the text of a file by `update` of it, and returns what else `update` yields. With
`create`, a missing file counts as empty and comes into being. -/
def rewrite {α : Type} (fs : FileSystem) (path : String) (create : Bool)
    (update : String → String × α) : Except (RewriteError α) α × FileSystem :=
  match fs.openForWriting path create with
  | .error error => (.error { error }, fs)
  | .ok (place, content, opened) =>
    match decodeText content with
    | .error e => (.error { error := .file e }, opened)
    | .ok text =>
      let (updated, yielded) := update text
      match opened.overwrite place content updated.toUTF8 with
      | (.ok (), after) => (.ok yielded, after)
      | (.error e, after) => (.error { error := .device e, yielded := some yielded }, after)

/-- What `rewrite` comes to where the device lets every write happen. On an error no file has
changed. -/
def edit {α : Type} (fs : FileSystem) (path : String) (create : Bool)
    (update : String → String × α) : Except FileError α × FileSystem :=
  match fs.openFile path create with
  | .error e => (.error e, fs)
  | .ok (place, content, fs) =>
    match decodeText content with
    | .error e => (.error e, fs)
    | .ok text =>
      let (updated, result) := update text
      (.ok result, fs.put place (.file updated.toUTF8))

/-- The file system on a device that also refuses to have the file or directory at a place
written. -/
def refuse (fs : FileSystem) (place : Place) (error : DeviceError) : FileSystem :=
  { fs with device := { fs.device with
    refusal := fun other => if other = place then some error else fs.device.refusal other } }

/-! ## Building a tree -/

/-- Where names lead from a place, one after the other, whether or not anything is there. -/
def trail : Place → List String → List Place
  | _, [] => []
  | here, name :: names =>
    let next :=
      if name = "." then here else if name = ".." then here.dropLast else here ++ [name]
    next :: trail next names

/-- Every place that a path leads through, in order, the one it starts at first. -/
def visited (fs : FileSystem) (path : String) : List Place :=
  fs.startOf path :: trail (fs.startOf path) (namesOf path)

/-- Makes a directory at a vacant place. -/
def makeDirectory (fs : FileSystem) (place : Place) : FileSystem :=
  if (fs.node? place).isSome then fs else fs.put place .directory

/-- Makes the directories that a path leads through, and the one it leads to. A name that is left
again by `..` gets one too. -/
def addDirectory (fs : FileSystem) (path : String) : FileSystem :=
  (fs.visited path).foldl makeDirectory fs

/-- Writes a whole file, and makes the directories that lead to it. Where no file can be opened,
none is written. -/
def addFile (fs : FileSystem) (path : String) (content : ByteArray) : FileSystem :=
  let fs := (fs.visited path).dropLast.foldl makeDirectory fs
  match fs.openFile path true with
  | .error _ => fs
  | .ok (place, _, fs) => fs.put place (.file content)

/-- Takes a file away. A path that leads to no file changes nothing. -/
def removeFile (fs : FileSystem) (path : String) : FileSystem :=
  match fs.resolve path with
  | .error _ => fs
  | .ok target =>
    match fs.node? target.place with
    | some (.file _) => if target.wantsDirectory then fs else fs.erase target.place
    | _ => fs

/-- The files below the working directory, by their path from there. -/
def files (fs : FileSystem) : List (String × ByteArray) :=
  fs.nodes.filterMap fun (place, node) =>
    match node with
    | .directory => none
    | .file content =>
      if fs.workingDirectory.isPrefixOf place then
        some ("/".intercalate (place.drop fs.workingDirectory.length), content)
      else none

/-! ## Lemmas -/

@[simp] theorem decodeText_toUTF8 (text : String) : decodeText text.toUTF8 = .ok text := by
  simp only [decodeText, String.fromUTF8?, String.toUTF8_eq_toByteArray, dif_pos text.isValidUTF8]
  rfl

theorem node?_put_self (fs : FileSystem) {place : Place} (node : Node) (h : place ≠ []) :
    (fs.put place node).node? place = some node := by
  simp [node?, put, h]

theorem node?_put_of_ne (fs : FileSystem) {place other : Place} (node : Node) (h : other ≠ place) :
    (fs.put place node).node? other = fs.node? other := by
  simp [node?, put, Entries.get?_set_of_ne h]

end FileSystem

end Findings
