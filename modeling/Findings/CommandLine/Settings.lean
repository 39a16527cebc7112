import Findings.CommandLine.Invocation
import Findings.Config.Basic

/-!
# Settings

The configuration that a command works with, and the directory that the paths in it are relative
to. Arguments of the call go before the configuration.
-/

namespace Findings.CommandLine

structure Settings where
  config : Config := {}
  /-- The directory of the configuration file, or the working directory if there is none. -/
  directory : String

namespace Settings

/-- The text of the working directory's path. -/
def workingDirectory (fs : FileSystem) : String :=
  "/" ++ "/".intercalate fs.workingDirectory

/-- The configuration file that is used: the one given, or else the nearest one. -/
def configFile? (fs : FileSystem) (given : Option String) : Option String :=
  given.or (Config.find? fs (workingDirectory fs))

/-- The directory of a configuration file; the working directory if its path has no directory. -/
def directoryOf (fs : FileSystem) (path : String) : String :=
  ((FilePath.parent? path).filter (· ≠ "")).getD (workingDirectory fs)

/-- Loads the configuration file that is used. Without one all settings have their defaults. -/
def load (fs : FileSystem) (given : Option String) : Except ConfigError Settings :=
  match configFile? fs given with
  | none => .ok { directory := workingDirectory fs }
  | some path =>
    match Config.load fs path with
    | .error e => .error e
    | .ok config => .ok { config, directory := directoryOf fs path }

/-- The suppression file: the one given, or else the configured one. -/
def suppressionFile? (settings : Settings) (given : Option String) : Option String :=
  given.or (settings.config.suppressionFileIn settings.directory)

/-- The skip list: the patterns given if there are any, or else the configured ones. -/
def skipList (settings : Settings) (given : List String) : Except ConfigError SkipList :=
  SkipList.parse (if given.isEmpty then settings.config.skipPatterns else given)

end Settings

end Findings.CommandLine
