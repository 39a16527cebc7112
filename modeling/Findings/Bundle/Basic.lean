import Findings.Bundle.Diagnostic
import Findings.Bundle.Error
import Findings.Json.Printer
import Findings.Json.Reader

/-!
# Bundles

The findings of one analyzer run and the table of the files they refer to. `Bundle.parse` is
strict: every diagnostic has to decode.
-/

namespace Findings

structure Bundle where
  files : FileTable
  diagnostics : List Diagnostic := []
  /-- The members of the bundle with other keys. -/
  extra : List (String × Json) := []

namespace Bundle

def keys : List String :=
  ["files", "diagnostics"]

def ofJson (value : Json) : Decoded Bundle := do
  let members ← Json.decodeMembers keys value
  .ok {
    files := ← Json.required FileTable.ofJson "files" members
    diagnostics := ← Json.listMember Diagnostic.ofJson "diagnostics" members
    extra := Json.extras keys members }

def toJson (bundle : Bundle) : Json :=
  .object ([
    ("files", bundle.files.toJson),
    ("diagnostics", .array (bundle.diagnostics.map Diagnostic.toJson))] ++ bundle.extra)

/-- Reads a bundle from a text. `origin` names the text in errors. -/
def parse (content origin : String) : Except BundleError Bundle :=
  match Json.parse content with
  | .error e => .error (.malformed origin (.notJson e))
  | .ok value =>
    match ofJson value with
    | .error e => .error (.malformed origin (.undecodable e))
    | .ok bundle => .ok bundle

/-- The text of a bundle without blanks. -/
def render (bundle : Bundle) : String :=
  bundle.toJson.compact

end Bundle

end Findings
