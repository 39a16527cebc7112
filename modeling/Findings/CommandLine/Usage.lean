import Findings.CommandLine.Option

/-!
# Usage

What a call answers that leads to no command: the usage text, the version, or what is wrong with
its arguments.
-/

namespace Findings.CommandLine

/-- The name and version of the program. -/
def versionText : String :=
  "quell 0.1.0\n"

def usageText : String :=
  "Static-analysis report triage\n\n" ++
  "Usage: quell [OPTIONS] <COMMAND>\n\n" ++
  "Commands:\n" ++
  "  report    Render the findings of one or more bundles\n" ++
  "  skip      Remove findings in excluded files from bundles, in place\n" ++
  "  suppress  Manage the suppression file\n" ++
  "  help      Print this message\n\n" ++
  "Options:\n" ++
  "  -q, --quiet            Suppress all log output except errors\n" ++
  "  -v, --verbose          Enable verbose log output\n" ++
  "      --config <CONFIG>  Path to a custom quell.toml configuration file\n" ++
  "  -h, --help             Print help\n" ++
  "  -V, --version          Print version\n"

namespace Refusal

/-- The exit code: asking for help or for the version is no failure. -/
def code : Refusal → Nat
  | help | version => 0
  | _ => 2

/-- What is written to the output stream. -/
def output : Refusal → String
  | help => usageText
  | version => versionText
  | _ => ""

/-- What is wrong with the arguments. -/
def message : Refusal → String
  | help | version => ""
  | unknownOption name => s!"unexpected argument '{name}' found"
  | unknownCommand name => s!"unrecognized subcommand '{name}'"
  | unexpectedOperand text => s!"unexpected argument '{text}' found"
  | missingValue option => s!"a value is required for '--{option}' but none was supplied"
  | unexpectedValue option => s!"unexpected value for '--{option}' found"
  | invalidValue option value => s!"invalid value '{value}' for '--{option}'"
  | repeatedOption name => s!"the argument '--{name}' cannot be used multiple times"
  | missingArgument name => s!"the required argument '{name}' was not provided"
  | missingCommand => "a subcommand is required but none was provided"

end Refusal

end Findings.CommandLine
