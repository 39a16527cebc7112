import Findings.Text.Search

/-!
# Options on a command line

The grammar of the arguments of one command. A command has options with a long name and maybe a
short one, may take operands, and may have subcommands. The value of an option stands after an
equals sign or in the next argument; short flags can be written together. After `--` all arguments
are operands.

- `Matched.read`: the options and operands of a command, up to the name of a subcommand.
-/

namespace Findings.CommandLine

/-- What an option takes, and what it does. -/
inductive OptionKind where
  /-- No value. -/
  | flag
  /-- One value, which does not look like an option unless it stands after an equals sign. -/
  | value
  /-- Any value, as often as wanted. -/
  | values
  /-- Asks for help. -/
  | help
  /-- Asks for the version. -/
  | version
  deriving DecidableEq, Repr

structure OptionSpec where
  name : String
  kind : OptionKind
  short : Option Char := none
  /-- The values it accepts; `none` for all. -/
  choices : Option (List String) := none
  deriving DecidableEq, Repr

namespace OptionSpec

/-- Whether the option has a value. -/
def takesValue (option : OptionSpec) : Bool :=
  option.kind = .value || option.kind = .values

def accepts (option : OptionSpec) (value : String) : Bool :=
  option.choices.all (·.contains value)

end OptionSpec

/-- The arguments that a command knows. -/
structure Shape where
  options : List OptionSpec
  takesOperands : Bool := false
  subcommands : List String := []

namespace Shape

def long? (shape : Shape) (name : String) : Option OptionSpec :=
  shape.options.find? (·.name = name)

def short? (shape : Shape) (c : Char) : Option OptionSpec :=
  shape.options.find? (·.short = some c)

end Shape

/-- Why arguments do not lead to a command: they ask for help or for the version, or they are not
understood. -/
inductive Refusal where
  | help
  | version
  | unknownOption (name : String)
  | unknownCommand (name : String)
  | unexpectedOperand (text : String)
  | missingValue (option : String)
  | unexpectedValue (option : String)
  | invalidValue (option value : String)
  | repeatedOption (name : String)
  | missingArgument (name : String)
  | missingCommand
  deriving DecidableEq, Repr

/-- The options and operands of one command, in order. A flag has an empty value. -/
structure Matched where
  options : List (String × String) := []
  operands : List String := []
  deriving DecidableEq, Repr

namespace Matched

/-- The values of an option. -/
def values (found : Matched) (name : String) : List String :=
  (found.options.filter (·.1 = name)).map Prod.snd

/-- The value of an option that may occur once. -/
def value? (found : Matched) (name : String) : Option String :=
  (found.values name).head?

def hasFlag (found : Matched) (name : String) : Bool :=
  (found.value? name).isSome

/-- The value of an option that has to occur. -/
def required (found : Matched) (name : String) : Except Refusal String :=
  match found.value? name with
  | some value => .ok value
  | none => .error (.missingArgument name)

/-- Adds an option. Only options of the kind `values` may be repeated. -/
def add (found : Matched) (option : OptionSpec) (value : String) : Except Refusal Matched :=
  match option.kind with
  | .help => .error .help
  | .version => .error .version
  | kind =>
    if kind ≠ .values && found.hasFlag option.name then .error (.repeatedOption option.name)
    else if !option.accepts value then .error (.invalidValue option.name value)
    else .ok { found with options := found.options ++ [(option.name, value)] }

/-- Adds a long option: what stands before the equals sign, and what after it. Returns the option
if its value is still to come. -/
def addLong (shape : Shape) (found : Matched) (name : String) (value : Option String) :
    Except Refusal (Matched × Option OptionSpec) :=
  match shape.long? name with
  | none => .error (.unknownOption name)
  | some option =>
    match value with
    | some value =>
      if option.takesValue then (found.add option value).map (·, none)
      else .error (.unexpectedValue name)
    | none =>
      if option.takesValue then .ok (found, some option)
      else (found.add option "").map (·, none)

/-- Adds short options written together. The first that takes a value takes the rest as its value.
Returns the option if its value is still to come. -/
def addShort (shape : Shape) (found : Matched) : List Char →
    Except Refusal (Matched × Option OptionSpec)
  | [] => .ok (found, none)
  | c :: rest =>
    match shape.short? c with
    | none => .error (.unknownOption (String.singleton c))
    | some option =>
      if option.takesValue then
        match rest with
        | [] => .ok (found, some option)
        | '=' :: value => (found.add option (.ofList value)).map (·, none)
        | value => (found.add option (.ofList value)).map (·, none)
      else
        match found.add option "" with
        | .error e => .error e
        | .ok found => addShort shape found rest

/-- Whether an argument cannot be the value of an option of the kind `value`. -/
def looksLikeOption (text : String) : Bool :=
  match text.toList with
  | '-' :: _ :: _ => true
  | _ => false

/-- Adds the first argument, which is not a subcommand and not `--`. Returns the option if its
value is still to come. -/
def addArgument (shape : Shape) (found : Matched) (text : String) :
    Except Refusal (Matched × Option OptionSpec) :=
  match text.toList with
  | '-' :: '-' :: body =>
    match Text.cut? ['='] body with
    | some (name, value) => addLong shape found (.ofList name) (some (.ofList value))
    | none => addLong shape found (.ofList body) none
  | '-' :: c :: rest => addShort shape found (c :: rest)
  | _ =>
    if shape.takesOperands then .ok ({ found with operands := found.operands ++ [text] }, none)
    else .error (.unexpectedOperand text)

/-- Adds operands. -/
def addOperands (shape : Shape) (found : Matched) (texts : List String) : Except Refusal Matched :=
  match texts with
  | [] => .ok found
  | text :: _ =>
    if shape.takesOperands then .ok { found with operands := found.operands ++ texts }
    else .error (.unexpectedOperand text)

/-- Reads the arguments of a command, up to the name of a subcommand; then that name and the
arguments after it are returned too. `pending` is an option that waits for its value. -/
def readFrom (shape : Shape) : (found : Matched) → (pending : Option OptionSpec) → List String →
    Except Refusal (Matched × Option (String × List String))
  | found, none, [] => .ok (found, none)
  | _, some option, [] => .error (.missingValue option.name)
  | found, some option, text :: rest =>
    if option.kind = .values || !looksLikeOption text then do
      let found ← found.add option text
      readFrom shape found none rest
    else .error (.missingValue option.name)
  | found, none, text :: rest =>
    if shape.subcommands.contains text then .ok (found, some (text, rest))
    else if text = "--" then (addOperands shape found rest).map (·, none)
    else do
      let (found, pending) ← addArgument shape found text
      readFrom shape found pending rest

/-- Reads the arguments of a command, up to the name of a subcommand. -/
def read (shape : Shape) (arguments : List String) :
    Except Refusal (Matched × Option (String × List String)) :=
  readFrom shape {} none arguments

end Matched

end Findings.CommandLine
