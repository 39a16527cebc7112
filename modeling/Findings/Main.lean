import Findings.CommandLine.Inputs
import Findings.CommandLine.Usage

/-!
# The program

Reads the files that a command may look at, runs the command on them, and writes back the files
that it has changed. A file that may not be opened for writing is one that the command is refused.
-/

namespace Findings.Program

open CommandLine

/-- The path of a place. -/
def pathOf (place : Place) : String :=
  "/" ++ "/".intercalate place

/-- Why the file at a place may not be opened for writing. -/
def refusalOf (place : Place) : IO (Option DeviceError) := do
  try
    let _ ← IO.FS.Handle.mk (pathOf place) .readWrite
    return none
  catch
    | .permissionDenied _ 30 _ => return some .readOnly
    | .permissionDenied .. => return some .permissionDenied
    | _ => return none

/-- Looks up what stands at a place, and whether it may be written. -/
def loadPlace (fs : FileSystem) (place : Place) : IO FileSystem := do
  if (fs.node? place).isSome then return fs
  let path := (← IO.currentDir) / pathOf place
  if ← path.isDir then return fs.put place .directory
  if ← path.pathExists then
    let fs := fs.put place (.file (← IO.FS.readBinFile path))
    return ((← refusalOf place).map (fs.refuse place)).getD fs
  return fs

/-- Looks up everything on the way of a path. -/
def loadPath (fs : FileSystem) (path : String) : IO FileSystem :=
  (fs.visited path).foldlM loadPlace fs

def loadPaths (fs : FileSystem) (paths : List String) : IO FileSystem :=
  paths.foldlM loadPath fs

/-- Looks up all that a command may look at. -/
def load (fs : FileSystem) (invocation : Invocation) : IO FileSystem := do
  let fs ← loadPaths fs (configPaths fs invocation)
  match Settings.load fs invocation.config with
  | .error _ => return fs
  | .ok settings =>
    let fs ← loadPaths fs (namedPaths settings invocation.command)
    match invocation.command with
    | .report options => loadPaths fs (sourcePaths fs settings options)
    | _ => return fs

/-- Writes the files that have changed. Returns whether all of them could be written. -/
def store (before after : FileSystem) : IO Bool :=
  after.nodes.foldlM (fun good (place, node) => do
    match node with
    | .directory => return good
    | .file content =>
      if before.node? place = some node then return good
      try
        IO.FS.writeBinFile (pathOf place) content
        return good
      catch e =>
        IO.eprintln s!"error: {e}"
        return false) true

/-- The text of a notice. -/
def noticeText : Notice → String
  | .log ⟨.warn, message⟩ => s!" WARN {message}"
  | .log ⟨.error, message⟩ => s!"ERROR {message}"
  | .line text => text

/-- The place of the working directory. -/
def workingPlace : IO Place := do
  return (FilePath.pieces (← IO.currentDir).toString).filter (· ≠ "")

/-- Runs the command of a call, and returns its exit code. -/
def execute (invocation : Invocation) : IO Nat := do
  let fs ← load (.empty (← workingPlace)) invocation
  let outcome := run fs {} invocation
  (← IO.getStdout).write outcome.sink.written
  outcome.allNotices.forM fun notice => IO.eprintln (noticeText notice)
  return if ← store fs outcome.fs then outcome.code else 1

/-- Answers a call that leads to no command. -/
def refuse (refusal : Refusal) : IO Nat := do
  IO.print refusal.output
  if refusal.code ≠ 0 then IO.eprintln s!"error: {refusal.message}"
  return refusal.code

end Findings.Program

open Findings in
def main (arguments : List String) : IO UInt32 := do
  let code ←
    match CommandLine.Invocation.parse arguments with
    | .ok invocation => Program.execute invocation
    | .error refusal => Program.refuse refusal
  return code.toUInt32
