import Findings.Suppression.Record

/-!
# Suppression files

Loading and changing a suppression file. Every change reads the whole file and writes it anew; a
file that does not parse is left as it is. A missing file holds no records, and the first change
makes it, even one that adds nothing.
-/

namespace Findings.SuppressionFile

/-- The records of the file at a path. -/
def load (fs : FileSystem) (path : String) : Except SuppressionError (List Suppression) :=
  match fs.readText path with
  | .ok content => Suppression.parse content path
  | .error .notFound => .ok []
  | .error e => .error (.io path (.file e))

/-- The content with its records replaced by `change` of them, where `none` means no change, and
whether they changed. Content that does not parse stays as it is. -/
def revise (path : String) (change : List Suppression → Option (List Suppression))
    (content : String) : String × Except SuppressionError Bool :=
  match Suppression.parse content path with
  | .error e => (content, .error e)
  | .ok records =>
    match change records with
    | some records => (Suppression.render records, .ok true)
    | none => (content, .ok false)

/-- Replaces the records of a file by `change` of them. Returns whether they changed. -/
def update (fs : FileSystem) (path : String)
    (change : List Suppression → Option (List Suppression)) :
    Except SuppressionError Bool × FileSystem :=
  match fs.rewrite path true (revise path change) with
  | (.ok result, fs) => (result, fs)
  | (.error e, fs) => (.error (.io path e.error), fs)

/-- The records with one more, unless its hash and file name are already covered. -/
def withRecord (record : Suppression) (records : List Suppression) : Option (List Suppression) :=
  if records.any fun r => r.covers record.hash record.fileName then none
  else some (records ++ [record])

/-- The records without those for a hash and a file name, if there are any. -/
def withoutRecords (hash fileName : String) (records : List Suppression) :
    Option (List Suppression) :=
  let kept := records.filter fun r => !r.covers hash fileName
  if kept.length = records.length then none else some kept

/-- Adds a record at the end of a file, unless its hash and file name are already covered. -/
def append (fs : FileSystem) (path : String) (record : Suppression) :
    Except SuppressionError Bool × FileSystem :=
  update fs path (withRecord record)

/-- Removes every record for a hash and a file name from a file. -/
def remove (fs : FileSystem) (path hash fileName : String) :
    Except SuppressionError Bool × FileSystem :=
  update fs path (withoutRecords hash fileName)

end Findings.SuppressionFile
