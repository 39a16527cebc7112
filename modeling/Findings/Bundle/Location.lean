import Findings.Bundle.FileTable

/-!
# Locations

A place in a source file: a line and a column, both counted from 1, and the index of the file in
the file table of the bundle. Other keys of a location are kept and written back.
-/

namespace Findings

structure Location where
  line : UInt32
  col : UInt32
  file : FileIndex
  /-- The members of the location with other keys. -/
  extra : List (String × Json) := []

namespace Location

def keys : List String :=
  ["line", "col", "file"]

def ofJson (value : Json) : Decoded Location := do
  let members ← Json.decodeMembers keys value
  .ok {
    line := ← Json.required Json.decodeUInt32 "line" members
    col := ← Json.required Json.decodeUInt32 "col" members
    file := ← Json.required Json.decodeUInt64 "file" members
    extra := Json.extras keys members }

def toJson (location : Location) : Json :=
  .object ([
    ("line", .ofNat location.line.toNat),
    ("col", .ofNat location.col.toNat),
    ("file", .ofNat location.file.toNat)] ++ location.extra)

end Location

end Findings
