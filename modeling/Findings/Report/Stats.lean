import Findings.Json.Decode
import Findings.Json.Selection

/-!
# Statistics

Counts of reported findings: by severity, by file, and in all. Keys are in the order of their code
points. Counts are 64-bit words.
-/

namespace Findings

/-- Counts by key, in increasing order of keys. -/
abbrev Tally := List (String × UInt64)

namespace Tally

/-- Adds to the count of a key. -/
def add (key : String) (n : UInt64) : Tally → Tally
  | [] => [(key, n)]
  | (k, m) :: rest =>
    if k = key then (k, m + n) :: rest
    else if key < k then (key, n) :: (k, m) :: rest
    else (k, m) :: add key n rest

/-- Adds the counts of another tally. -/
def merge (tally other : Tally) : Tally :=
  other.foldl (fun tally entry => tally.add entry.1 entry.2) tally

/-- Sets the count of a key. -/
def set (key : String) (n : UInt64) : Tally → Tally
  | [] => [(key, n)]
  | (k, m) :: rest =>
    if k = key then (k, n) :: rest
    else if key < k then (key, n) :: (k, m) :: rest
    else (k, m) :: set key n rest

/-- The sum of all counts. -/
def total (tally : Tally) : UInt64 :=
  tally.foldr (fun entry sum => entry.2 + sum) 0

def toJson (tally : Tally) : Json :=
  .object (tally.map fun entry => (entry.1, .ofNat entry.2.toNat))

/-- Decodes the members of an object of counts; the last count of a key stands. -/
def ofMembers : List (String × Json) → Tally → Decoded Tally
  | [], tally => .ok tally
  | (key, value) :: rest, tally => do
    let n ← value.decodeUInt64
    ofMembers rest (tally.set key n)

def ofJson : Json → Decoded Tally
  | .object members => ofMembers members []
  | _ => .error (.expected "an object of counts")

theorem total_add (key : String) (n : UInt64) (tally : Tally) :
    (tally.add key n).total = tally.total + n := by
  induction tally with
  | nil => simp [add, total]
  | cons entry rest ih =>
    simp only [add]
    split
    · simp only [total, List.foldr_cons]
      ac_rfl
    · split
      · simp only [total, List.foldr_cons]
        ac_rfl
      · simp only [total, List.foldr_cons] at *
        rw [ih]
        ac_rfl

end Tally

/-- What has been reported. -/
structure Stats where
  severity : Tally := []
  files : Tally := []
  reportCount : UInt64 := 0
  deriving DecidableEq

namespace Stats

def empty : Stats := {}

/-- Counts one finding. -/
def record (stats : Stats) (severity file : String) : Stats :=
  { severity := stats.severity.add severity 1
    files := stats.files.add file 1
    reportCount := stats.reportCount + 1 }

/-- Adds the counts of other statistics. -/
def merge (stats other : Stats) : Stats :=
  { severity := stats.severity.merge other.severity
    files := stats.files.merge other.files
    reportCount := stats.reportCount + other.reportCount }

def toJson (stats : Stats) : Json :=
  .object [
    ("severity", stats.severity.toJson),
    ("files", stats.files.toJson),
    ("reports", .object [("report_count", .ofNat stats.reportCount.toNat)])]

/-- Decodes a record without extra members, which may also be written as the list of its members.
-/
def decodeFields (keys : List String) : Json → Decoded (List Json)
  | .array items => if items.length = keys.length then .ok items else .error .wrongLength
  | value => do
    let members ← Json.decodeMembers keys value
    keys.mapM fun key => Json.required .ok key members

def ofJson (value : Json) : Decoded Stats := do
  match ← decodeFields ["severity", "files", "reports"] value with
  | [severity, files, reports] =>
    match ← decodeFields ["report_count"] reports with
    | [count] =>
      .ok {
        severity := ← Tally.ofJson severity
        files := ← Tally.ofJson files
        reportCount := ← count.decodeUInt64 }
    | _ => .error .wrongLength
  | _ => .error .wrongLength

/-- The members that statistics are read from. -/
def selection : Json.Selection :=
  .record [
    ("severity", .all),
    ("files", .all),
    ("reports", .record [("report_count", .all)])]

/-- Reads statistics from a text; `none` if it holds none. Members with other keys do not count. -/
def parse? (content : String) : Option Stats :=
  match Json.Selection.parse selection content with
  | .error _ => none
  | .ok value =>
    match ofJson value with
    | .error _ => none
    | .ok stats => some stats

theorem total_severity_record (stats : Stats) (severity file : String) :
    (stats.record severity file).severity.total = stats.severity.total + 1 :=
  Tally.total_add ..

theorem total_files_record (stats : Stats) (severity file : String) :
    (stats.record severity file).files.total = stats.files.total + 1 :=
  Tally.total_add ..

end Stats

end Findings
