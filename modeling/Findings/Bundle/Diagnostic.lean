import Findings.Bundle.Step

/-!
# Diagnostics

A finding as a bundle stores it. Checker name and identity hash may be missing, because not every
analyzer writes them.
-/

namespace Findings

structure Diagnostic where
  location : Location
  path : List Step := []
  checkerName : Option String := none
  identityHash : Option String := none
  description : Option String := none
  /-- The members of the diagnostic with other keys. -/
  extra : List (String × Json) := []

namespace Diagnostic

def checkerKey : String :=
  "check_name"

def hashKey : String :=
  "issue_hash_content_of_line_in_context"

def keys : List String :=
  ["location", "path", checkerKey, hashKey, "description"]

def ofJson (value : Json) : Decoded Diagnostic := do
  let members ← Json.decodeMembers keys value
  .ok {
    location := ← Json.required Location.ofJson "location" members
    path := ← Json.listMember Step.ofJson "path" members
    checkerName := ← Json.optional Json.decodeString checkerKey members
    identityHash := ← Json.optional Json.decodeString hashKey members
    description := ← Json.optional Json.decodeString "description" members
    extra := Json.extras keys members }

def toJson (diagnostic : Diagnostic) : Json :=
  .object ([
    ("location", diagnostic.location.toJson),
    ("path", .array (diagnostic.path.map Step.toJson))]
    ++ Step.optionalMember checkerKey (diagnostic.checkerName.map .string)
    ++ Step.optionalMember hashKey (diagnostic.identityHash.map .string)
    ++ Step.optionalMember "description" (diagnostic.description.map .string)
    ++ diagnostic.extra)

/-- The file of the diagnostic's own location. -/
def primaryFile (diagnostic : Diagnostic) : FileIndex :=
  diagnostic.location.file

/-- Every file the diagnostic refers to, its own first. -/
def files (diagnostic : Diagnostic) : List FileIndex :=
  diagnostic.location.file :: diagnostic.path.flatMap Step.files

end Diagnostic

end Findings
