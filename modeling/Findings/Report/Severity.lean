import Findings.Json.Decode
import Findings.Json.Reader

/-!
# Severities

The severity label of each checker. A checker without one is unspecified.
-/

namespace Findings

structure SeverityMap where
  entries : List (String × String) := []

namespace SeverityMap

/-- The label of a checker that the map does not have. -/
def unspecified : String :=
  "UNSPECIFIED"

def empty : SeverityMap := {}

def insert (map : SeverityMap) (checker severity : String) : SeverityMap :=
  ⟨Entries.set checker severity map.entries⟩

/-- The map with the labels of another, which win. -/
def extend (map other : SeverityMap) : SeverityMap :=
  other.entries.foldl (fun map entry => map.insert entry.1 entry.2) map

def ofList (entries : List (String × String)) : SeverityMap :=
  empty.extend ⟨entries⟩

/-- The label of a checker. -/
def severityOf (map : SeverityMap) (checker : String) : String :=
  (Entries.get? checker map.entries).getD unspecified

def size (map : SeverityMap) : Nat :=
  map.entries.length

/-- Decodes the members of an object whose values are all strings. -/
def decodeLabels : List (String × Json) → Decoded (List (String × String))
  | [] => .ok []
  | (checker, value) :: rest => do
    let severity ← value.decodeString
    let labels ← decodeLabels rest
    .ok ((checker, severity) :: labels)

def ofJson : Json → Decoded SeverityMap
  | .object members => (decodeLabels members).map ofList
  | _ => .error (.expected "an object of strings")

/-- Why a text is no severity map. -/
inductive Defect where
  | notJson (error : ReadError)
  | undecodable (error : DecodeError)
  deriving DecidableEq, Repr

def Defect.message : Defect → String
  | notJson e => e.message
  | undecodable e => e.message

/-- Reads a map from a text. -/
def parse (content : String) : Except Defect SeverityMap :=
  match Json.parse content with
  | .error e => .error (.notJson e)
  | .ok value =>
    match ofJson value with
    | .error e => .error (.undecodable e)
    | .ok map => .ok map

@[simp] theorem severityOf_insert_self (map : SeverityMap) (checker severity : String) :
    (map.insert checker severity).severityOf checker = severity := by
  simp [insert, severityOf]

end SeverityMap

end Findings
