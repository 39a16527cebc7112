import Findings.Binary64
import Findings.Entries

/-!
# JSON values

A JSON document as a value. An object keeps its members in the order of the text, repeated keys
included; `collapse` is the reading in which the last value of a repeated key counts, at the place
where the key came first.

A whole number in the range of a signed or an unsigned 64-bit word is an exact integer. Every other
number is a 64-bit binary floating point number, `-0` included.
-/

namespace Findings

/-- A JSON number. -/
inductive Number where
  | int (n : Int)
  | float (x : Binary64)
  deriving DecidableEq, Repr

/-- A JSON value. -/
inductive Json where
  | null
  | bool (b : Bool)
  | number (n : Number)
  | string (s : String)
  | array (items : List Json)
  | object (members : List (String × Json))
  deriving Inhabited

namespace Json

mutual

/-- Keeps each key of every object once, with its last value at its first place. -/
def collapse : Json → Json
  | .array items => .array (collapseItems items)
  | .object members => .object (Entries.ofList (collapseMembers members))
  | .null => .null
  | .bool b => .bool b
  | .number n => .number n
  | .string s => .string s

/-- Collapses every item of an array. -/
def collapseItems : List Json → List Json
  | [] => []
  | item :: items => collapse item :: collapseItems items

/-- Collapses the values of an object, not its keys. -/
def collapseMembers : List (String × Json) → List (String × Json)
  | [] => []
  | (key, value) :: members => (key, collapse value) :: collapseMembers members

end

/-- The value of a key, if the value is an object that has it. -/
def get? (key : String) : Json → Option Json
  | .object members => Entries.get? key members
  | _ => none

def ofNat (n : Nat) : Json :=
  .number (.int n)

def ofStrings (items : List String) : Json :=
  .array (items.map .string)

/-- A whole number that fits an unsigned 64-bit word. -/
def toUInt64? : Json → Option UInt64
  | .number (.int n) => if 0 ≤ n ∧ n < 2 ^ 64 then some n.toNat.toUInt64 else none
  | _ => none

theorem collapseItems_eq_map (items : List Json) : collapseItems items = items.map collapse := by
  induction items with
  | nil => rfl
  | cons item items ih => simp [collapseItems, ih]

theorem collapseMembers_eq_map (members : List (String × Json)) :
    collapseMembers members = members.map fun member => (member.1, collapse member.2) := by
  induction members with
  | nil => rfl
  | cons member members ih => simp [collapseMembers, ih]

end Json

end Findings
