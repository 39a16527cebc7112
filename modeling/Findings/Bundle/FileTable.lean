import Findings.Json.Decode

/-!
# File tables

The source paths that the locations of a bundle refer to by index. A table only ever grows at its
end, so an index keeps its meaning.
-/

namespace Findings

/-- The position of a path in a file table. -/
abbrev FileIndex := UInt64

/-- Source paths in the order of their indices. -/
structure FileTable where
  paths : List String := []
  deriving DecidableEq, Repr

namespace FileTable

def empty : FileTable := {}

/-- Appends a path. Its index is the former size. -/
def push (files : FileTable) (path : String) : FileTable :=
  ⟨files.paths ++ [path]⟩

/-- The path at an index, if the table is long enough. -/
def get? (files : FileTable) (index : FileIndex) : Option String :=
  files.paths[index.toNat]?

def size (files : FileTable) : Nat :=
  files.paths.length

/-- Each path with its index. -/
def indexed (files : FileTable) : List (Nat × String) :=
  files.paths.zipIdx.map fun (path, i) => (i, path)

/-- A table is written as the list of its paths. -/
def toJson (files : FileTable) : Json :=
  .ofStrings files.paths

def ofJson (value : Json) : Decoded FileTable :=
  (Json.decodeList Json.decodeString value).map FileTable.mk

theorem get?_isSome_iff {files : FileTable} {index : FileIndex} :
    (files.get? index).isSome ↔ index.toNat < files.size := by
  simp [get?, size]

theorem mem_paths_of_get? {files : FileTable} {index : FileIndex} {path : String}
    (h : files.get? index = some path) : path ∈ files.paths :=
  List.mem_of_getElem? h

end FileTable

end Findings
