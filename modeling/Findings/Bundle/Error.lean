import Findings.FileSystem
import Findings.Json.Decode
import Findings.Json.Number

/-!
# Errors of bundles
-/

namespace Findings

/-- Why a text is no bundle. -/
inductive BundleDefect where
  | notJson (error : ReadError)
  | undecodable (error : DecodeError)
  | notAnObject
  | missingFiles
  | invalidFiles (error : DecodeError)
  | diagnosticsNotAList
  deriving DecidableEq, Repr

namespace BundleDefect

def message : BundleDefect → String
  | notJson e => e.message
  | undecodable e => e.message
  | notAnObject => "top level is not an object"
  | missingFiles => "missing `files`"
  | invalidFiles e => s!"invalid `files`: {e.message}"
  | diagnosticsNotAList => "`diagnostics` is not a list"

end BundleDefect

/-- Why a bundle could not be read, understood or written. -/
inductive BundleError where
  | io (path : String) (error : AccessError)
  | malformed (origin : String) (defect : BundleDefect)
  deriving DecidableEq, Repr

namespace BundleError

def message : BundleError → String
  | io path e => s!"bundle I/O error at {path}: {e.message}"
  | malformed origin defect => s!"malformed bundle {origin}: {defect.message}"

end BundleError

end Findings
