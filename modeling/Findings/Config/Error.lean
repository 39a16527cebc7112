import Findings.Config.Glob
import Findings.FileSystem
import Findings.Toml.Value

/-!
# Errors of configurations
-/

namespace Findings

/-- Why a text is no configuration. -/
inductive ConfigDefect where
  | notToml (error : TomlError)
  | expected (what : String)
  deriving DecidableEq, Repr

namespace ConfigDefect

def message : ConfigDefect → String
  | notToml e => e.message
  | expected what => s!"expected {what}"

end ConfigDefect

/-- Why a configuration could not be read, or why it does not hold together. -/
inductive ConfigError where
  | unreadable (error : FileError)
  | malformed (defect : ConfigDefect)
  | writableWithoutFile
  | invalidPattern (pattern : String) (error : GlobError)
  deriving DecidableEq, Repr

namespace ConfigError

def message : ConfigError → String
  | unreadable e => s!"failed to read configuration: {e.message}"
  | malformed defect => s!"failed to parse configuration: {defect.message}"
  | writableWithoutFile => "validation error: suppress.writable requires suppress.file"
  | invalidPattern pattern e =>
    s!"validation error: invalid skip pattern '{pattern}': {e.message}"

end ConfigError

end Findings
