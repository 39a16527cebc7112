import Findings.FileSystem
import Findings.Source.File

/-!
# The source cache

Source files by path, read once. A file that cannot be read is remembered as missing. Two paths
share an entry when their components are the same.

- `file_snd_file`: a second look-up of a path gives what the first one gave.
-/

namespace Findings

/-- The source files looked up or added so far; `none` for one that could not be read. -/
structure SourceCache where
  entries : List (List FilePath.Component × Option SourceFile) := []

namespace SourceCache

/-- A cache with nothing looked up. -/
def empty : SourceCache := {}

/-- Gives a path the text `content`, whatever the file system holds there. -/
def add (cache : SourceCache) (path content : String) : SourceCache :=
  { entries :=
      Entries.set (FilePath.components path) (some (.ofContent content)) cache.entries }

/-- The source file that a path leads to in the file system. -/
def fetch (fs : FileSystem) (path : String) : Option SourceFile :=
  match fs.readText path with
  | .ok content => some (.ofContent content)
  | .error _ => none

/-- The file at a path, read on the first look-up. -/
def file (cache : SourceCache) (fs : FileSystem) (path : String) :
    Option SourceFile × SourceCache :=
  let key := FilePath.components path
  match Entries.get? key cache.entries with
  | some found => (found, cache)
  | none =>
    let found := fetch fs path
    (found, { entries := Entries.set key found cache.entries })

/-- The text of the file at a path. -/
def content (cache : SourceCache) (fs : FileSystem) (path : String) :
    Option String × SourceCache :=
  let (found, cache) := cache.file fs path
  (found.map SourceFile.content, cache)

/-- A line of the file at a path. -/
def line (cache : SourceCache) (fs : FileSystem) (path : String) (number : Nat) :
    Option String × SourceCache :=
  let (found, cache) := cache.file fs path
  (found.bind fun file => file.line? number, cache)

@[simp] theorem file_add_self (cache : SourceCache) (fs : FileSystem) (path content : String) :
    ((cache.add path content).file fs path).1 = some (.ofContent content) := by
  simp [file, add]

theorem file_snd_file (cache : SourceCache) (fs fs' : FileSystem) (path : String) :
    ((cache.file fs path).2.file fs' path).1 = (cache.file fs path).1 := by
  cases h : Entries.get? (FilePath.components path) cache.entries <;> simp [file, h]

end SourceCache

end Findings
