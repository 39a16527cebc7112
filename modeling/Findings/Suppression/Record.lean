import Findings.FileSystem
import Findings.Text.Lines

/-!
# Suppressions and their text

A suppression silences the findings with one identity hash in files of one name. In a suppression
file it takes one line, `hash||file name||comment`; blank lines do not count. The comment may
itself hold the separator.

- `parse` and `render`: the two directions of the format.
-/

namespace Findings

structure Suppression where
  hash : String
  fileName : String
  comment : String
  deriving DecidableEq, Repr

/-- What is wrong with a line of a suppression file. -/
inductive LineDefect where
  | fieldCount (found : Nat)
  | emptyHash
  deriving DecidableEq, Repr

namespace LineDefect

def message : LineDefect → String
  | fieldCount found => s!"expected 3 fields, found {found}"
  | emptyHash => "empty hash"

end LineDefect

/-- Why a suppression store could not be opened or changed. -/
inductive SuppressionError where
  | io (path : String) (error : AccessError)
  | corrupt (path : String) (line : Nat) (defect : LineDefect)
  | missingBackingFile
  deriving DecidableEq, Repr

namespace SuppressionError

def message : SuppressionError → String
  | io path e => s!"suppression file I/O error at {path}: {e.message}"
  | corrupt path line defect =>
    s!"corrupt suppression file {path} at line {line}: {defect.message}"
  | missingBackingFile => "a writable suppression store requires a backing file"

end SuppressionError

namespace Suppression

open Text

/-- The separator of the fields. -/
def separator : List Char :=
  ['|', '|']

/-- A suppression with a comment on one line: line breaks in it become blanks. -/
def ofComment (hash fileName comment : String) : Suppression :=
  { hash, fileName
    comment := .ofList (comment.toList.map fun c => if c = '\r' ∨ c = '\n' then ' ' else c) }

/-- Whether a suppression is for a hash and a file name. -/
def covers (s : Suppression) (hash fileName : String) : Bool :=
  s.hash = hash && s.fileName = fileName

/-- The line of a suppression, without its end. -/
def lineChars (s : Suppression) : List Char :=
  s.hash.toList ++ separator ++ s.fileName.toList ++ separator ++ s.comment.toList

/-- Reads one line that is not blank. -/
def ofLine (line : List Char) : Except LineDefect Suppression :=
  match cut? separator line with
  | none => .error (.fieldCount 1)
  | some (hash, rest) =>
    match cut? separator rest with
    | none => .error (.fieldCount 2)
    | some (fileName, comment) =>
      if (trim hash).isEmpty then .error .emptyHash
      else .ok {
        hash := .ofList (trim hash)
        fileName := .ofList (trim fileName)
        comment := .ofList comment }

/-- Reads lines, the first of which has the given number. An error names the line. -/
def ofLines : (number : Nat) → List (List Char) → Except (Nat × LineDefect) (List Suppression)
  | _, [] => .ok []
  | number, line :: rest =>
    if (trim line).isEmpty then ofLines (number + 1) rest
    else
      match ofLine line with
      | .error defect => .error (number, defect)
      | .ok s => (ofLines (number + 1) rest).map (s :: ·)

/-- Reads the content of a suppression file. -/
def parseChars (content : List Char) : Except (Nat × LineDefect) (List Suppression) :=
  ofLines 1 (lines content)

/-- Reads the content of the suppression file at a path, which only errors mention. -/
def parse (content path : String) : Except SuppressionError (List Suppression) :=
  match parseChars content.toList with
  | .ok records => .ok records
  | .error (line, defect) => .error (.corrupt path line defect)

def renderChars (records : List Suppression) : List Char :=
  records.flatMap fun s => s.lineChars ++ ['\n']

/-- The content of a suppression file with the given records. -/
def render (records : List Suppression) : String :=
  .ofList (renderChars records)

@[simp] theorem renderChars_nil : renderChars [] = [] := rfl

@[simp] theorem renderChars_cons (s : Suppression) (records : List Suppression) :
    renderChars (s :: records) = s.lineChars ++ '\n' :: renderChars records := by
  simp [renderChars]

@[simp] theorem covers_iff {s : Suppression} {hash fileName : String} :
    s.covers hash fileName = true ↔ s.hash = hash ∧ s.fileName = fileName := by
  simp [covers]

end Suppression

end Findings
