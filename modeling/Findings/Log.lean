import Findings.Text.Visible

/-!
# Log entries

What an operation reports besides its result. Operations return their entries in order.
-/

namespace Findings

/-- How grave a log entry is. -/
inductive LogLevel where
  | warn
  | error
  deriving DecidableEq, Repr

structure LogEntry where
  level : LogLevel
  message : String
  deriving DecidableEq, Repr

namespace LogEntry

def warn (message : String) : LogEntry :=
  ⟨.warn, message⟩

def error (message : String) : LogEntry :=
  ⟨.error, message⟩

/-- The entry as it is shown: with the terminal control characters of its message spelled out. -/
def shown (entry : LogEntry) : LogEntry :=
  { entry with message := Text.visible entry.message }

end LogEntry

/-- Entries in the order in which they were made. -/
abbrev Log := List LogEntry

end Findings
