import Findings.Toml.Scalar

/-!
# Reading TOML

`Toml.parse` reads a whole document: lines with a key and a value, headers `[table]` and
`[[array of tables]]`, and comments. Arrays and inline tables may be nested 79 deep, counted
together, and a dotted key has at most 79 parts. A byte order mark at the start does not count.

The readers take a bound on the number of their nested calls; `Toml.parse` gives one that no text
of that length can exceed.
-/

namespace Findings.Toml

/-- How deep values may be nested, and how many parts a key may have. -/
def maxDepth : Nat := 79

/-- A text without the comment at its start. -/
def skipComment : List Char → List Char
  | '#' :: rest => rest.dropWhile isPlain
  | cs => cs

/-- Reads blanks, a comment, and the end of the line or of the text. -/
def endLine (cs : List Char) : Except TomlError (List Char) :=
  match skipComment (skipBlanks cs) with
  | [] => .ok []
  | rest =>
    match afterLineEnd? rest with
    | some rest => .ok rest
    | none => .error (.atStart rest)

/-- Skips blanks, comments and line ends, at most `bound` lines. -/
def skipLines : (bound : Nat) → List Char → Except TomlError (List Char)
  | 0, cs => .ok cs
  | bound + 1, cs =>
    match skipBlanks cs with
    | '#' :: rest =>
      match afterLineEnd? (rest.dropWhile isPlain) with
      | some rest => skipLines bound rest
      | none => .error (.atStart (rest.dropWhile isPlain))
    | '\n' :: rest => skipLines bound rest
    | '\r' :: '\n' :: rest => skipLines bound rest
    | '\r' :: _ => .error (.unexpected '\r')
    | rest => .ok rest

/-! ## Keys -/

/-- Whether a character may stand in a key without quotes. -/
def isBareKey (c : Char) : Bool :=
  c.isAlphanum || c = '_' || c = '-'

/-- Reads one part of a key. -/
def readKeyPart : Reader String := fun cs =>
  match cs with
  | '"' :: rest => (readQuoted rest).map fun (key, rest) => (.ofList key, rest)
  | '\'' :: rest => (readLiteral rest).map fun (key, rest) => (.ofList key, rest)
  | _ =>
    let key := cs.takeWhile isBareKey
    if key.isEmpty then .error (.atStart cs) else .ok (.ofList key, cs.drop key.length)

/-- Reads a possibly dotted key: the parts before the last one, and the last one. -/
def readKey : (bound : Nat) → Reader (List String × String)
  | 0, _ => .error .tooDeep
  | bound + 1, cs => do
    let (part, rest) ← readKeyPart (skipBlanks cs)
    match skipBlanks rest with
    | '.' :: rest => do
      let ((path, key), rest) ← readKey bound rest
      .ok ((part :: path, key), rest)
    | rest => .ok (([], part), rest)

/-- Reads a key and the equals sign after it. -/
def readKeyEquals : Reader (List String × String) := fun cs => do
  let (key, rest) ← readKey maxDepth cs
  match rest with
  | '=' :: rest => .ok (key, skipBlanks rest)
  | _ => .error (.atStart rest)

/-! ## Values -/

mutual

/-- Reads a value. `depth` more arrays and inline tables may open. -/
def readValue (depth : Nat) : (bound : Nat) → Reader TomlValue
  | 0, _ => .error .unexpectedEnd
  | bound + 1, cs =>
    match cs with
    | '[' :: rest =>
      match depth with
      | 0 => .error .tooDeep
      | depth + 1 => do
        let (items, rest) ← readItems depth bound rest
        .ok (.array items, rest)
    | '\x7b' :: rest =>
      match depth with
      | 0 => .error .tooDeep
      | depth + 1 =>
        match skipBlanks rest with
        | '\x7d' :: rest => .ok (.table [], rest)
        | rest => do
          let (entries, rest) ← readPairs depth bound [] rest
          .ok (.table (TomlItem.toEntries entries), rest)
    | '"' :: _ | '\'' :: _ => do
      let (s, rest) ← readString cs
      .ok (.string s, rest)
    | 't' :: 'r' :: 'u' :: 'e' :: rest => .ok (.bool true, rest)
    | 'f' :: 'a' :: 'l' :: 's' :: 'e' :: rest => .ok (.bool false, rest)
    | _ => readNumberOrDate cs

/-- Reads the items of an array and the closing bracket. A comma may follow the last item. -/
def readItems (depth : Nat) : (bound : Nat) → Reader (List TomlValue)
  | 0, _ => .error .unexpectedEnd
  | bound + 1, cs => do
    match ← skipLines cs.length cs with
    | ']' :: rest => .ok ([], rest)
    | rest => do
      let (item, rest) ← readValue depth bound rest
      match ← skipLines rest.length rest with
      | ',' :: rest => do
        let (items, rest) ← readItems depth bound rest
        .ok (item :: items, rest)
      | ']' :: rest => .ok ([item], rest)
      | rest => .error (.atStart rest)

/-- Reads the pairs of an inline table and the closing brace, after those read before. There is at
least one, and no comma follows the last. -/
def readPairs (depth : Nat) : (bound : Nat) → TomlEntries → Reader TomlEntries
  | 0, _, _ => .error .unexpectedEnd
  | bound + 1, entries, cs => do
    let ((path, key), rest) ← readKeyEquals cs
    let (value, rest) ← readValue depth bound rest
    let entries ← TomlEntries.addDotted path key value false entries
    match skipBlanks rest with
    | ',' :: rest => readPairs depth bound entries rest
    | '\x7d' :: rest => .ok (entries, rest)
    | rest => .error (.atStart rest)

end

/-! ## Documents -/

/-- A bound that suffices for every text of a length. -/
def callBound (length : Nat) : Nat :=
  2 * length + 2

/-- Reads the lines of a document below the table that `header` names. -/
def readLines : (bound : Nat) → (header : List String) → TomlEntries → List Char →
    Except TomlError TomlEntries
  | 0, _, entries, _ => .ok entries
  | bound + 1, header, entries, cs =>
    match skipBlanks cs with
    | [] => .ok entries
    | '#' :: rest => do
      let rest ← endLine ('#' :: rest)
      readLines bound header entries rest
    | '\n' :: rest => readLines bound header entries rest
    | '\r' :: rest => do
      let rest ← endLine ('\r' :: rest)
      readLines bound header entries rest
    | '[' :: '[' :: rest => do
      let ((path, key), rest) ← readKey maxDepth rest
      match rest with
      | ']' :: ']' :: rest => do
        let rest ← endLine rest
        let entries ← TomlEntries.appendTable path key entries
        readLines bound (path ++ [key]) entries rest
      | _ => .error (.atStart rest)
    | '[' :: rest => do
      let ((path, key), rest) ← readKey maxDepth rest
      match rest with
      | ']' :: rest => do
        let rest ← endLine rest
        let entries ← TomlEntries.defineTable path key entries
        readLines bound (path ++ [key]) entries rest
      | _ => .error (.atStart rest)
    | rest => do
      let ((path, key), rest) ← readKeyEquals rest
      let (value, rest) ← readValue maxDepth (callBound rest.length) rest
      let rest ← endLine rest
      let entries ← TomlEntries.addBelow header path key value entries
      readLines bound header entries rest

/-- A text without the byte order mark at its start. -/
def skipMark : List Char → List Char
  | '\ufeff' :: rest => rest
  | cs => cs

/-- Reads a document as the entries of its top table. -/
def parse (text : String) : Except TomlError (List (String × TomlValue)) :=
  let cs := skipMark text.toList
  (readLines (cs.length + 1) [] [] cs).map TomlItem.toEntries

end Findings.Toml
