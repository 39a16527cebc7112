import Findings.Text.Blank
import Findings.Text.Lines

/-!
# Source files

The text of a source file with an index of its lines. Lines are counted from 1 and end at line
feeds. A line is returned without its line feed and without the carriage returns before it. A text
that ends in a line feed has no line after that; the empty text has one empty line.
-/

namespace Findings

/-- The positions just after the line feeds of a text that starts at position `start`. -/
def lineStartsAfter (start : Nat) : List Char → List Nat
  | [] => []
  | c :: cs =>
    if c = '\n' then (start + 1) :: lineStartsAfter (start + 1) cs
    else lineStartsAfter (start + 1) cs

/-- A source file, its characters, and the positions at which its lines start. -/
structure SourceFile where
  content : String
  chars : Array Char := content.toList.toArray
  lineStarts : Array Nat := (0 :: lineStartsAfter 0 content.toList).toArray
  chars_eq : chars = content.toList.toArray := by rfl
  lineStarts_eq : lineStarts = (0 :: lineStartsAfter 0 content.toList).toArray := by rfl

namespace SourceFile

def ofContent (content : String) : SourceFile :=
  { content }

/-- The characters that are cut off the end of a line. -/
def isLineEnd (c : Char) : Bool :=
  c = '\n' || c = '\r'

/-- The characters of a line, counted from 1. -/
def lineChars? (file : SourceFile) : (number : Nat) → Option (List Char)
  | 0 => none
  | i + 1 => do
    let start ← file.lineStarts[i]?
    if file.chars.size ≤ start && i ≠ 0 then none
    else
      let stop := (file.lineStarts[i + 1]?).getD file.chars.size
      some (Text.dropEnd isLineEnd (file.chars.extract start stop).toList)

/-- A line, counted from 1. -/
def line? (file : SourceFile) (number : Nat) : Option String :=
  (file.lineChars? number).map String.ofList

/-- How many lines the file has. -/
def lineCount (file : SourceFile) : Nat :=
  if file.content.toList.getLast? = some '\n' then file.lineStarts.size - 1
  else file.lineStarts.size

@[simp] theorem content_ofContent (content : String) : (ofContent content).content = content := rfl

@[simp] theorem lineChars?_zero (file : SourceFile) : file.lineChars? 0 = none := rfl

theorem length_lineStartsAfter (start : Nat) (cs : List Char) :
    (lineStartsAfter start cs).length = cs.count '\n' := by
  induction cs generalizing start with
  | nil => rfl
  | cons c cs ih => by_cases h : c = '\n' <;> simp [lineStartsAfter, h, ih]

end SourceFile

end Findings
