import Findings.Bundle.Location
import Findings.FilePath

/-!
# Layout of a report

The lines that a report consists of: the place and message of a finding or a step, and a source
line with a caret under a column of it. Tabs are shown as two blanks.
-/

namespace Findings.Layout

/-- A line with two blanks for every tab. -/
def widenTabs (line : List Char) : List Char :=
  line.flatMap fun c => if c = '\t' then [' ', ' '] else [c]

/-- How many columns the text before a column takes when tabs are two wide. -/
def caretIndent (line : List Char) (col : Nat) : Nat :=
  let before := line.take (col - 1)
  before.length + before.count '\t'

/-- The line, and below it a caret under a column, counted from 1. -/
def caretBlockChars (line : List Char) (col : Nat) : List Char :=
  widenTabs line ++ '\n' :: List.replicate (caretIndent line col) ' ' ++ ['^']

/-- The line, and below it a caret under a column, counted from 1. -/
def caretBlock (line : String) (col : Nat) : String :=
  .ofList (caretBlockChars line.toList col)

/-- `file:line:column: message`. -/
def place (entry : String) (location : Location) (message : String) : String :=
  s!"{FilePath.basename entry}:{location.line}:{location.col}: {message}"

/-- The first line of a finding: `[severity] place [checker]`. -/
def header (severity checker entry : String) (location : Location) (message : String) : String :=
  s!"[{severity}] {place entry location message} [{checker}]"

/-- A number with blanks before it up to a width. -/
def alignRight (width n : Nat) : String :=
  let digits := (toString n).toList
  .ofList (List.replicate (width - digits.length) ' ' ++ digits)

/-- A numbered step. -/
def stepLine (width number : Nat) (entry : String) (location : Location) (message : String) :
    String :=
  s!"    {alignRight width number}, {place entry location message}"

/-- The last line of a report, for a number of findings. -/
def summary (count : UInt64) (analyzed : Option String) : String :=
  let suffix :=
    match analyzed.filter (· ≠ "") with
    | some path => s!" {FilePath.basename path}"
    | none => ""
  if count = 0 then s!"Found no defects while analyzing{suffix}\n"
  else s!"Found {count} defect(s) while analyzing{suffix}\n\n"

end Findings.Layout
