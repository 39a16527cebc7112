import Findings.CommandLine.Run

/-!
# Inputs of a command

Which files a command may look at, so that they can be read before it runs: first the places where
a configuration file can be, then the files that the arguments and the configuration name, and for
a report the sources that the bundles name.
-/

namespace Findings.CommandLine

/-- Where the configuration file of a call can be. -/
def configPaths (fs : FileSystem) (invocation : Invocation) : List String :=
  match invocation.config with
  | some path => [path]
  | none =>
    (FilePath.ancestors (Settings.workingDirectory fs)).map fun directory =>
      FilePath.join directory Config.fileName

/-- The files that a command names, itself or by its configuration. -/
def namedPaths (settings : Settings) : Command → List String
  | .report options =>
    options.severityMap.toList ++ (settings.suppressionFile? options.suppressionFile).toList
      ++ options.bundles
  | .skip options => options.bundles
  | .suppress file _ => (settings.suppressionFile? file).toList

/-- The sources that the bundles of a report name. -/
def sourcePaths (fs : FileSystem) (settings : Settings) (options : ReportOptions) : List String :=
  let enricher : Enricher := {
    sourceRoot := options.sourceRoot.or settings.config.sourceRoot
    mayReplace := false }
  options.bundles.flatMap fun bundle =>
    (enricher.readPath fs bundle .empty).1.files.paths.map enricher.resolve

end Findings.CommandLine
