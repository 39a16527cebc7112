import Findings.Config.SkipList
import Findings.Report.Severity
import Findings.Toml.Reader

/-!
# Configurations

What a configuration file can set. The file is a TOML document with the tables `report`,
`severity`, `suppress` and `skip`, all optional, as are their keys. Keys that mean nothing are
ignored. A table with known keys may also be written as the list of their values, in order; keys
without a value then keep their defaults.

- `Config.parse`: a configuration from its text, with all skip patterns checked.
- `Config.find?`: the nearest configuration file above a directory.
-/

namespace Findings

structure Config where
  /-- The directory that the paths of file tables are relative to. -/
  sourceRoot : Option String := none
  /-- Whether derived hashes may be written back into bundles. -/
  mayReplace : Bool := true
  /-- Whether reports list the event steps of each finding. -/
  printSteps : Bool := false
  severities : SeverityMap := {}
  /-- The suppression file, relative to the directory of the configuration file. -/
  suppressionFile : Option String := none
  /-- Whether suppressions may be added and removed. -/
  writable : Bool := false
  skipPatterns : List String := []

namespace Config

/-- The name of configuration files. -/
def fileName : String :=
  "quell.toml"

/-! ## Decoding -/

/-- The result of decoding a part of a configuration. -/
abbrev Section (α : Type) := Except ConfigDefect α

def decodeBool : TomlValue → Section Bool
  | .bool b => .ok b
  | _ => .error (.expected "a boolean")

def decodeString : TomlValue → Section String
  | .string s => .ok s
  | _ => .error (.expected "a string")

def decodeStrings : TomlValue → Section (List String)
  | .array items => items.mapM decodeString
  | _ => .error (.expected "an array of strings")

/-- The key under which a date stands when it is read as a table. -/
def dateKey : String :=
  "$__toml_private_datetime"

/-- The members of a table with these keys, or of the list of their values. -/
def members (keys : List String) : TomlValue → Section (List (String × TomlValue))
  | .table entries => .ok entries
  | .array items => .ok (keys.zip items)
  | .datetime text => .ok [(dateKey, .string text)]
  | _ => .error (.expected "a table")

/-- Decodes the member with a key, if there is one. -/
def optional {α : Type} (decode : TomlValue → Section α) (key : String)
    (entries : List (String × TomlValue)) : Section (Option α) :=
  match Entries.get? key entries with
  | none => .ok none
  | some value => (decode value).map some

/-- Decodes a table of labels. -/
def decodeSeverities : TomlValue → Section SeverityMap
  | .table entries => do
    let labels ← entries.mapM fun (checker, value) => do
      let severity ← decodeString value
      .ok (checker, severity)
    .ok (.ofList labels)
  | .datetime text => .ok (.ofList [(dateKey, text)])
  | _ => .error (.expected "a table of strings")

def withReport (config : Config) (value : TomlValue) : Section Config := do
  let entries ← members ["source_root", "allow_rewrite", "print_steps"] value
  let sourceRoot ← optional decodeString "source_root" entries
  let mayReplace ← optional decodeBool "allow_rewrite" entries
  let printSteps ← optional decodeBool "print_steps" entries
  .ok { config with
    sourceRoot := sourceRoot.or config.sourceRoot
    mayReplace := mayReplace.getD config.mayReplace
    printSteps := printSteps.getD config.printSteps }

def withSuppress (config : Config) (value : TomlValue) : Section Config := do
  let entries ← members ["file", "writable"] value
  let file ← optional decodeString "file" entries
  let writable ← optional decodeBool "writable" entries
  .ok { config with
    suppressionFile := file.or config.suppressionFile
    writable := writable.getD config.writable }

def withSkip (config : Config) (value : TomlValue) : Section Config := do
  let entries ← members ["patterns"] value
  let patterns ← optional decodeStrings "patterns" entries
  .ok { config with skipPatterns := patterns.getD config.skipPatterns }

def withSeverity (config : Config) (value : TomlValue) : Section Config := do
  .ok { config with severities := ← decodeSeverities value }

/-- Applies a table of the document, if there is one with this key. -/
def apply (key : String) (entries : List (String × TomlValue))
    (decode : Config → TomlValue → Section Config) (config : Config) : Section Config :=
  match Entries.get? key entries with
  | none => .ok config
  | some value => decode config value

/-- Decodes the entries of a document over the defaults. -/
def ofEntries (entries : List (String × TomlValue)) : Section Config := do
  let config ← apply "report" entries withReport {}
  let config ← apply "severity" entries withSeverity config
  let config ← apply "suppress" entries withSuppress config
  apply "skip" entries withSkip config

/-! ## Reading -/

/-- Checks that a configuration holds together: only a suppression file can be writable, and all
patterns are valid. -/
def validate (config : Config) : Except ConfigError Config :=
  if config.writable && config.suppressionFile.isNone then .error .writableWithoutFile
  else (SkipList.parse config.skipPatterns).map fun _ => config

/-- Reads a configuration from a text. -/
def parse (content : String) : Except ConfigError Config :=
  match Toml.parse content with
  | .error e => .error (.malformed (.notToml e))
  | .ok entries =>
    match ofEntries entries with
    | .error defect => .error (.malformed defect)
    | .ok config => config.validate

/-- Reads the configuration file at a path. -/
def load (fs : FileSystem) (path : String) : Except ConfigError Config :=
  match fs.readText path with
  | .error e => .error (.unreadable e)
  | .ok content => parse content

/-- The nearest configuration file in a directory or above it. -/
def find? (fs : FileSystem) (start : String) : Option String :=
  ((FilePath.ancestors start).map fun directory => FilePath.join directory fileName).find?
    fs.isFile

/-- The suppression file, taken relative to a directory. -/
def suppressionFileIn (config : Config) (base : String) : Option String :=
  config.suppressionFile.map (FilePath.join base)

end Config

end Findings
