import Findings.Json.Reader

/-!
# Reading selected members

`Selection.parse` reads only those members of a text that a record asks for. All other members are
passed over: their text has to have the form of a value, but their numbers may be of any size, they
may be nested as deep as they like, and their escapes need not pair up.

A record may also be written as the list of the values of its keys.
-/

namespace Findings.Json

/-! ## Passing over values -/

/-- The text after one or more digits. -/
def skipDigits (cs : List Char) : Except ReadError (List Char) :=
  match Number.takeDigits cs with
  | ([], rest) => .error (.atStart rest)
  | (_, rest) => .ok rest

/-- The text after the fraction of a number, if it has one. -/
def skipFraction : List Char → Except ReadError (List Char)
  | '.' :: rest => skipDigits rest
  | cs => .ok cs

/-- The text after the sign of an exponent, if it has one. -/
def skipSign : List Char → List Char
  | '+' :: rest | '-' :: rest => rest
  | cs => cs

/-- The text after the exponent of a number, if it has one. -/
def skipExponent : List Char → Except ReadError (List Char)
  | 'e' :: rest | 'E' :: rest => skipDigits (skipSign rest)
  | cs => .ok cs

/-- The text after a number of any size. -/
def skipNumber (cs : List Char) : Except ReadError (List Char) := do
  let cs :=
    match cs with
    | '-' :: rest => rest
    | _ => cs
  match Number.takeDigits cs with
  | ([], rest) => .error (.atStart rest)
  | (0 :: _ :: _, _) => .error (.unexpected '0')
  | (_, rest) => skipExponent (← skipFraction rest)

/-- The text after a string, from after its opening quote. -/
def skipString : List Char → Except ReadError (List Char)
  | [] => .error .unexpectedEnd
  | '"' :: rest => .ok rest
  | '\\' :: 'u' :: a :: b :: c :: d :: rest =>
    match Text.hexNumber? [a, b, c, d] with
    | none => .error .invalidEscape
    | some _ => skipString rest
  | '\\' :: c :: rest =>
    match unescape? c with
    | none => .error .invalidEscape
    | some _ => skipString rest
  | c :: rest => if c.toNat < 0x20 || c = '\\' then .error (.unexpected c) else skipString rest

mutual

/-- The text after a value. -/
def skipValue : (bound : Nat) → List Char → Except ReadError (List Char)
  | 0, _ => .error .unexpectedEnd
  | bound + 1, cs =>
    match skipSpace cs with
    | 'n' :: rest => (readLiteral "null" .null ('n' :: rest)).map Prod.snd
    | 't' :: rest => (readLiteral "true" (.bool true) ('t' :: rest)).map Prod.snd
    | 'f' :: rest => (readLiteral "false" (.bool false) ('f' :: rest)).map Prod.snd
    | '"' :: rest => skipString rest
    | '[' :: rest =>
      match skipSpace rest with
      | ']' :: rest => .ok rest
      | rest => skipItems bound rest
    | '\x7b' :: rest =>
      match skipSpace rest with
      | '\x7d' :: rest => .ok rest
      | rest => skipMembers bound rest
    | rest => skipNumber rest

/-- The text after the items of an array and the closing bracket. -/
def skipItems : (bound : Nat) → List Char → Except ReadError (List Char)
  | 0, _ => .error .unexpectedEnd
  | bound + 1, cs => do
    let rest ← skipValue bound cs
    match skipSpace rest with
    | ',' :: rest => skipItems bound rest
    | ']' :: rest => .ok rest
    | rest => .error (.atStart rest)

/-- The text after the members of an object and the closing brace. -/
def skipMembers : (bound : Nat) → List Char → Except ReadError (List Char)
  | 0, _ => .error .unexpectedEnd
  | bound + 1, cs =>
    match skipSpace cs with
    | '"' :: rest => do
      let rest ← skipString rest
      match skipSpace rest with
      | ':' :: rest => do
        let rest ← skipValue bound rest
        match skipSpace rest with
        | ',' :: rest => skipMembers bound rest
        | '\x7d' :: rest => .ok rest
        | rest => .error (.atStart rest)
      | rest => .error (.atStart rest)
    | rest => .error (.atStart rest)

end

/-! ## Records -/

/-- What is read of a value: all of it, or the members of a record. -/
inductive Selection where
  | all
  | record (fields : List (String × Selection))
  deriving Inhabited

namespace Selection

mutual

/-- Reads the value at the start of a text. -/
def read : (bound : Nat) → Selection → List Char → Except ReadError (Json × List Char)
  | 0, _, _ => .error .unexpectedEnd
  | _ + 1, .all, cs => readValue maxDepth (callBound cs.length) cs
  | bound + 1, .record fields, cs =>
    match skipSpace cs with
    | '\x7b' :: rest =>
      match skipSpace rest with
      | '\x7d' :: rest => .ok (.object [], rest)
      | rest => (readFields bound fields rest).map fun (members, rest) => (.object members, rest)
    | '[' :: rest =>
      match skipSpace rest with
      | ']' :: rest => .ok (.array [], rest)
      | rest =>
        (readList bound (fields.map Prod.snd) rest).map fun (items, rest) => (.array items, rest)
    | rest => readValue maxDepth (callBound rest.length) rest

/-- Reads the selected members of an object, up to and with the closing brace. -/
def readFields : (bound : Nat) → List (String × Selection) → List Char →
    Except ReadError (List (String × Json) × List Char)
  | 0, _, _ => .error .unexpectedEnd
  | bound + 1, fields, cs =>
    match skipSpace cs with
    | '"' :: rest => do
      let (key, rest) ← readString rest
      match skipSpace rest with
      | ':' :: rest => do
        let (member, rest) ← readField bound fields (.ofList key) rest
        match skipSpace rest with
        | ',' :: rest => do
          let (members, rest) ← readFields bound fields rest
          .ok (member ++ members, rest)
        | '\x7d' :: rest => .ok (member, rest)
        | rest => .error (.atStart rest)
      | rest => .error (.atStart rest)
    | rest => .error (.atStart rest)

/-- Reads the value of a key if it is selected, and passes over it if not. -/
def readField : (bound : Nat) → List (String × Selection) → (key : String) → List Char →
    Except ReadError (List (String × Json) × List Char)
  | 0, _, _, _ => .error .unexpectedEnd
  | bound + 1, fields, key, cs =>
    match Entries.get? key fields with
    | some selection => (read bound selection cs).map fun (value, rest) => ([(key, value)], rest)
    | none => (skipValue (callBound cs.length) cs).map fun rest => ([], rest)

/-- Reads the items of a list of fields, up to and with the closing bracket. -/
def readList : (bound : Nat) → List Selection → List Char →
    Except ReadError (List Json × List Char)
  | 0, _, _ => .error .unexpectedEnd
  | bound + 1, selections, cs => do
    let (item, rest) ← read bound (selections.head?.getD .all) cs
    match skipSpace rest with
    | ',' :: rest => do
      let (items, rest) ← readList bound selections.tail rest
      .ok (item :: items, rest)
    | ']' :: rest => .ok ([item], rest)
    | rest => .error (.atStart rest)

end

/-- Reads the selected part of a whole text. -/
def parse (selection : Selection) (text : String) : Except ReadError Json := do
  let (value, rest) ← read (3 * text.length + 3) selection text.toList
  match skipSpace rest with
  | [] => .ok value
  | rest => .error (.atStart rest)

end Selection

end Findings.Json
