import Findings.Json.Basic

/-!
# Decoding JSON values

How typed values are read from JSON. A record is read from an object only: its own keys may occur
once each, in any order, and every other key is kept as an extra member, in the order of the text,
a repeated one with its last value.
-/

namespace Findings

/-- Why a JSON value does not decode. -/
inductive DecodeError where
  | expected (what : String)
  | missingKey (key : String)
  | repeatedKey (key : String)
  | wrongLength
  deriving DecidableEq, Repr

namespace DecodeError

def message : DecodeError → String
  | expected what => s!"expected {what}"
  | missingKey key => s!"missing field `{key}`"
  | repeatedKey key => s!"duplicate field `{key}`"
  | wrongLength => "wrong number of elements"

end DecodeError

/-- The result of decoding a value. -/
abbrev Decoded (α : Type) := Except DecodeError α

namespace Json

def decodeString : Json → Decoded String
  | .string s => .ok s
  | _ => .error (.expected "a string")

def decodeUInt64 (value : Json) : Decoded UInt64 :=
  match value.toUInt64? with
  | some n => .ok n
  | none => .error (.expected "an unsigned 64-bit integer")

def decodeUInt32 (value : Json) : Decoded UInt32 :=
  match value.toUInt64? with
  | some n => if n.toNat < 2 ^ 32 then .ok n.toUInt32 else .error (.expected "a 32-bit integer")
  | none => .error (.expected "an unsigned 32-bit integer")

/-- Decodes every item of an array. -/
def decodeItems {α : Type} (decode : Json → Decoded α) : List Json → Decoded (List α)
  | [] => .ok []
  | item :: items => do
    let first ← decode item
    let rest ← decodeItems decode items
    .ok (first :: rest)

def decodeList {α : Type} (decode : Json → Decoded α) : Json → Decoded (List α)
  | .array items => decodeItems decode items
  | _ => .error (.expected "an array")

/-- A value that may be `null`. -/
def decodeOption {α : Type} (decode : Json → Decoded α) : Json → Decoded (Option α)
  | .null => .ok none
  | value => (decode value).map some

/-! ## Records -/

/-- The members of an object, in which none of the keys of a record is repeated. -/
def decodeMembers (keys : List String) : Json → Decoded (List (String × Json))
  | .object members =>
    match keys.find? fun key => 1 < (members.filter fun member => member.1 = key).length with
    | some key => .error (.repeatedKey key)
    | none => .ok members
  | _ => .error (.expected "an object")

/-- The members whose keys are not those of a record. -/
def extras (keys : List String) (members : List (String × Json)) : List (String × Json) :=
  Entries.ofList (collapseMembers (members.filter fun member => !keys.contains member.1))

/-- A member that has to be there. -/
def required {α : Type} (decode : Json → Decoded α) (key : String)
    (members : List (String × Json)) : Decoded α :=
  match Entries.get? key members with
  | some value => decode value
  | none => .error (.missingKey key)

/-- A member with a default. -/
def withDefault {α : Type} (default : α) (decode : Json → Decoded α) (key : String)
    (members : List (String × Json)) : Decoded α :=
  match Entries.get? key members with
  | some value => decode value
  | none => .ok default

/-- A member that may be missing or `null`. -/
def optional {α : Type} (decode : Json → Decoded α) (key : String)
    (members : List (String × Json)) : Decoded (Option α) :=
  withDefault none (decodeOption decode) key members

/-- A list that is empty if it is missing. -/
def listMember {α : Type} (decode : Json → Decoded α) (key : String)
    (members : List (String × Json)) : Decoded (List α) :=
  withDefault [] (decodeList decode) key members

end Json

end Findings
