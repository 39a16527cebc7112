import Findings.CommandLine.Option

/-!
# Invocations

What the arguments of a call ask for. The program has the commands `report`, `skip` and `suppress`,
and some options that every command takes. Where such an option is given at two levels, the one
nearer to the end counts.

- `Invocation.parse`: the invocation that a list of arguments stands for.
-/

namespace Findings.CommandLine

/-- What a report writes. -/
inductive ReportFormat where
  /-- The findings. -/
  | text
  /-- Only the totals, as JSON. -/
  | json
  deriving DecidableEq, Repr

structure ReportOptions where
  bundles : List String
  sourceRoot : Option String := none
  keepBundles : Bool := false
  printSteps : Bool := false
  analyzedFile : Option String := none
  suppressionFile : Option String := none
  writable : Bool := false
  severityMap : Option String := none
  skipPatterns : List String := []
  format : ReportFormat := .text
  deriving DecidableEq, Repr

structure SkipOptions where
  bundles : List String
  skipPatterns : List String := []
  deriving DecidableEq, Repr

/-- What is done with a suppression file. -/
inductive SuppressAction where
  | add (hash file comment : String)
  | remove (hash file : String)
  | list
  deriving DecidableEq, Repr

inductive Command where
  | report (options : ReportOptions)
  | skip (options : SkipOptions)
  | suppress (file : Option String) (action : SuppressAction)
  deriving DecidableEq, Repr

structure Invocation where
  /-- Log errors only. -/
  quiet : Bool := false
  /-- Log everything, whatever `quiet` says. -/
  verbose : Bool := false
  /-- The configuration file, instead of the nearest one. -/
  config : Option String := none
  command : Command
  deriving DecidableEq, Repr

namespace Invocation

/-! ## The arguments of each command -/

/-- The options of every command. -/
def globalOptions : List OptionSpec :=
  [{ name := "quiet", kind := .flag, short := some 'q' },
   { name := "verbose", kind := .flag, short := some 'v' },
   { name := "config", kind := .value },
   { name := "help", kind := .help, short := some 'h' }]

def topShape : Shape where
  options := globalOptions ++ [{ name := "version", kind := .version, short := some 'V' }]
  subcommands := ["report", "skip", "suppress", "help"]

def reportShape : Shape where
  options := globalOptions ++
    [{ name := "source-root", kind := .value },
     { name := "no-rewrite", kind := .flag },
     { name := "print-steps", kind := .flag },
     { name := "analyzed-file", kind := .value },
     { name := "suppress", kind := .value },
     { name := "writable", kind := .flag },
     { name := "severity-map", kind := .value },
     { name := "skip", kind := .values },
     { name := "format", kind := .value, short := some 'f', choices := some ["text", "json"] }]
  takesOperands := true

def skipShape : Shape where
  options := globalOptions ++ [{ name := "skip", kind := .values }]
  takesOperands := true

/-- The options of every action on a suppression file. -/
def suppressOptions : List OptionSpec :=
  globalOptions ++ [{ name := "suppress", kind := .value }]

def suppressShape : Shape where
  options := suppressOptions
  subcommands := ["add", "remove", "list", "help"]

def addShape : Shape where
  options := suppressOptions ++
    [{ name := "hash", kind := .value }, { name := "file", kind := .value },
     { name := "comment", kind := .value }]

def removeShape : Shape where
  options := suppressOptions ++
    [{ name := "hash", kind := .value }, { name := "file", kind := .value }]

def listShape : Shape where
  options := suppressOptions

/-! ## Reading -/

/-- The operands, of which there has to be one. -/
def someOperands (found : Matched) (name : String) : Except Refusal (List String) :=
  if found.operands.isEmpty then .error (.missingArgument name) else .ok found.operands

def readReport (arguments : List String) : Except Refusal (Matched × Command) := do
  let (found, _) ← Matched.read reportShape arguments
  let bundles ← someOperands found "bundles"
  .ok (found, .report {
    bundles
    sourceRoot := found.value? "source-root"
    keepBundles := found.hasFlag "no-rewrite"
    printSteps := found.hasFlag "print-steps"
    analyzedFile := found.value? "analyzed-file"
    suppressionFile := found.value? "suppress"
    writable := found.hasFlag "writable"
    severityMap := found.value? "severity-map"
    skipPatterns := found.values "skip"
    format := if found.value? "format" = some "json" then .json else .text })

def readSkip (arguments : List String) : Except Refusal (Matched × Command) := do
  let (found, _) ← Matched.read skipShape arguments
  let bundles ← someOperands found "bundles"
  .ok (found, .skip { bundles, skipPatterns := found.values "skip" })

/-- Reads an action on a suppression file. -/
def readAction (name : String) (arguments : List String) :
    Except Refusal (Matched × SuppressAction) := do
  if name = "add" then
    let (found, _) ← Matched.read addShape arguments
    let hash ← found.required "hash"
    let file ← found.required "file"
    .ok (found, .add hash file ((found.value? "comment").getD ""))
  else if name = "remove" then
    let (found, _) ← Matched.read removeShape arguments
    .ok (found, .remove (← found.required "hash") (← found.required "file"))
  else
    let (found, _) ← Matched.read listShape arguments
    .ok (found, .list)

/-- What the arguments after `help` ask for: a command below one with these subcommands. -/
def readTopic (subcommands : List String) : List String → Refusal
  | [] => .help
  | name :: rest =>
    if subcommands.contains name then
      match rest with
      | [] => .help
      | other :: more =>
        if name = "suppress" && suppressShape.subcommands.contains other && more.isEmpty then .help
        else .unknownCommand other
    else .unknownCommand name

/-- Puts the options of two levels together; those of the first list count before those of the
second. -/
def joined (inner outer : Matched) : Matched :=
  { inner with options := inner.options ++ outer.options }

def readSuppress (arguments : List String) : Except Refusal (Matched × Command) := do
  let (outer, next) ← Matched.read suppressShape arguments
  match next with
  | none => .error .missingCommand
  | some (name, rest) =>
    if name = "help" then .error (readTopic suppressShape.subcommands rest)
    else
      let (inner, action) ← readAction name rest
      let found := joined inner outer
      .ok (found, .suppress (found.value? "suppress") action)

/-- Reads a command by its name. -/
def readCommand (name : String) (arguments : List String) : Except Refusal (Matched × Command) :=
  if name = "report" then readReport arguments
  else if name = "skip" then readSkip arguments
  else if name = "suppress" then readSuppress arguments
  else .error (readTopic topShape.subcommands arguments)

/-- Reads the arguments of a call. -/
def parse (arguments : List String) : Except Refusal Invocation := do
  let (outer, next) ← Matched.read topShape arguments
  match next with
  | none => .error .missingCommand
  | some (name, rest) =>
    let (inner, command) ← readCommand name rest
    let found := joined inner outer
    .ok {
      quiet := found.hasFlag "quiet"
      verbose := found.hasFlag "verbose"
      config := found.value? "config"
      command }

end Invocation

end Findings.CommandLine
