import Findings.Json.Number
import Findings.Text.Hex
import Findings.Text.Search

/-!
# Reading JSON

`Json.parse` reads a whole text as one value. Arrays and objects may be nested 127 deep, counted
together. Blanks are space, tab, line feed and carriage return; nothing but blanks may follow the
value.

The readers take a bound on the number of their nested calls; `Json.parse` gives one that no text
of that length can exceed.
-/

namespace Findings.Json

/-- Whether JSON allows the character between tokens. -/
def isSpace (c : Char) : Bool :=
  c = ' ' || c = '\n' || c = '\t' || c = '\r'

def skipSpace (cs : List Char) : List Char :=
  cs.dropWhile isSpace

/-! ## Strings -/

/-- The character that a backslash and one letter stand for. -/
def unescape? : Char → Option Char
  | '"' => some '"'
  | '\\' => some '\\'
  | '/' => some '/'
  | 'b' => some '\x08'
  | 'f' => some '\x0c'
  | 'n' => some '\n'
  | 'r' => some '\r'
  | 't' => some '\t'
  | _ => none

def isHighSurrogate (unit : Nat) : Bool :=
  0xd800 ≤ unit && unit ≤ 0xdbff

def isLowSurrogate (unit : Nat) : Bool :=
  0xdc00 ≤ unit && unit ≤ 0xdfff

/-- The character of a surrogate pair. -/
def joinSurrogates (high low : Nat) : Char :=
  .ofNat (0x10000 + (high - 0xd800) * 0x400 + (low - 0xdc00))

/-- Reads a string after its opening quote, up to and with the closing one. -/
def readString : List Char → Except ReadError (List Char × List Char)
  | [] => .error .unexpectedEnd
  | '"' :: rest => .ok ([], rest)
  | '\\' :: 'u' :: a :: b :: c :: d :: rest =>
    match Text.hexNumber? [a, b, c, d] with
    | none => .error .invalidEscape
    | some unit =>
      if isLowSurrogate unit then .error .loneSurrogate
      else if isHighSurrogate unit then
        match rest with
        | '\\' :: 'u' :: e :: f :: g :: h :: rest =>
          match Text.hexNumber? [e, f, g, h] with
          | none => .error .invalidEscape
          | some low =>
            if isLowSurrogate low then do
              let (cs, rest) ← readString rest
              .ok (joinSurrogates unit low :: cs, rest)
            else .error .loneSurrogate
        | _ => .error .loneSurrogate
      else do
        let (cs, rest) ← readString rest
        .ok (.ofNat unit :: cs, rest)
  | '\\' :: c :: rest =>
    match unescape? c with
    | none => .error .invalidEscape
    | some plain => do
      let (cs, rest) ← readString rest
      .ok (plain :: cs, rest)
  | c :: rest =>
    if c.toNat < 0x20 || c = '\\' then .error (.unexpected c)
    else do
      let (cs, rest) ← readString rest
      .ok (c :: cs, rest)

/-! ## Values -/

/-- The text after a literal such as `null`. -/
def readLiteral (literal : String) (value : Json) (cs : List Char) :
    Except ReadError (Json × List Char) :=
  match Text.after? literal.toList cs with
  | some rest => .ok (value, rest)
  | none => .error (.atStart cs)

mutual

/-- Reads the value at the start of a text. `depth` more arrays and objects may open. -/
def readValue (depth : Nat) : Nat → List Char → Except ReadError (Json × List Char)
  | 0, _ => .error .unexpectedEnd
  | bound + 1, cs =>
    match skipSpace cs with
    | 'n' :: rest => readLiteral "null" .null ('n' :: rest)
    | 't' :: rest => readLiteral "true" (.bool true) ('t' :: rest)
    | 'f' :: rest => readLiteral "false" (.bool false) ('f' :: rest)
    | '"' :: rest => do
      let (s, rest) ← readString rest
      .ok (.string (.ofList s), rest)
    | '[' :: rest =>
      match depth with
      | 0 => .error .tooDeep
      | depth + 1 =>
        match skipSpace rest with
        | ']' :: rest => .ok (.array [], rest)
        | rest => do
          let (items, rest) ← readItems depth bound rest
          .ok (.array items, rest)
    | '\x7b' :: rest =>
      match depth with
      | 0 => .error .tooDeep
      | depth + 1 =>
        match skipSpace rest with
        | '\x7d' :: rest => .ok (.object [], rest)
        | rest => do
          let (members, rest) ← readMembers depth bound rest
          .ok (.object members, rest)
    | rest => do
      let (n, rest) ← Number.read rest
      .ok (.number n, rest)

/-- Reads the items of an array up to and with the closing bracket. There is at least one. -/
def readItems (depth : Nat) : Nat → List Char → Except ReadError (List Json × List Char)
  | 0, _ => .error .unexpectedEnd
  | bound + 1, cs => do
    let (item, rest) ← readValue depth bound cs
    match skipSpace rest with
    | ',' :: rest => do
      let (items, rest) ← readItems depth bound rest
      .ok (item :: items, rest)
    | ']' :: rest => .ok ([item], rest)
    | rest => .error (.atStart rest)

/-- Reads the members of an object up to and with the closing brace. There is at least one. -/
def readMembers (depth : Nat) :
    Nat → List Char → Except ReadError (List (String × Json) × List Char)
  | 0, _ => .error .unexpectedEnd
  | bound + 1, cs =>
    match skipSpace cs with
    | '"' :: rest => do
      let (key, rest) ← readString rest
      match skipSpace rest with
      | ':' :: rest => do
        let (value, rest) ← readValue depth bound rest
        let member := (String.ofList key, value)
        match skipSpace rest with
        | ',' :: rest => do
          let (members, rest) ← readMembers depth bound rest
          .ok (member :: members, rest)
        | '\x7d' :: rest => .ok ([member], rest)
        | rest => .error (.atStart rest)
      | rest => .error (.atStart rest)
    | rest => .error (.atStart rest)

end

/-- How deep arrays and objects may be nested. -/
def maxDepth : Nat := 127

/-- A bound that suffices for every text of a length: each opening bracket, comma or item takes a
character, and at most two calls. -/
def callBound (length : Nat) : Nat :=
  2 * length + 2

/-- Reads a text as one JSON value. -/
def parseChars (cs : List Char) : Except ReadError Json := do
  let (value, rest) ← readValue maxDepth (callBound cs.length) cs
  match skipSpace rest with
  | [] => .ok value
  | rest => .error (.atStart rest)

/-- Reads a text as one JSON value. -/
def parse (text : String) : Except ReadError Json :=
  parseChars text.toList

end Findings.Json
