import Findings.Decimal.Shortest
import Findings.Text.Hex
import Findings.Text.Search
import Findings.Toml.Value

/-!
# TOML scalars

Reading the strings, numbers, dates and times of TOML 1.0. Strings come in four kinds: in quotes,
with escapes, or in apostrophes, without; each also over several lines, in three of its marks.
Line ends in them are read as line feeds.
-/

namespace Findings.Toml

/-- What a reader returns: a value and the text after it. -/
abbrev Reader (α : Type) := List Char → Except TomlError (α × List Char)

/-- Whether TOML allows a character in comments, and in strings but for their marks: no control
character but the tab. -/
def isPlain (c : Char) : Bool :=
  c = '\t' || (0x20 ≤ c.toNat && c.toNat ≠ 0x7f)

def isBlank (c : Char) : Bool :=
  c = ' ' || c = '\t'

def skipBlanks (cs : List Char) : List Char :=
  cs.dropWhile isBlank

/-- The text after a line end, if one comes first. -/
def afterLineEnd? : List Char → Option (List Char)
  | '\n' :: rest => some rest
  | '\r' :: '\n' :: rest => some rest
  | _ => none

/-! ## Strings -/

/-- The character that a backslash and one letter stand for. -/
def unescape? : Char → Option Char
  | 'b' => some '\x08'
  | 't' => some '\t'
  | 'n' => some '\n'
  | 'f' => some '\x0c'
  | 'r' => some '\r'
  | '"' => some '"'
  | '\\' => some '\\'
  | _ => none

/-- The character with the code that hexadecimal digits spell. -/
def unicode? (digits : List Char) : Option Char := do
  let n ← Text.hexNumber? digits
  if n.isValidChar then some (.ofNat n) else none

/-- Puts a character before the result of reading the rest. -/
def prepend (c : Char) (result : Except TomlError (List Char × List Char)) :
    Except TomlError (List Char × List Char) :=
  result.map fun (cs, rest) => (c :: cs, rest)

/-- Puts a character before the result of reading the rest, if it is one. -/
def prependEscape (c : Option Char) (result : Except TomlError (List Char × List Char)) :
    Except TomlError (List Char × List Char) :=
  match c with
  | some c => prepend c result
  | none => .error .invalidEscape

/-- Reads a quoted string on one line, after its opening quote. -/
def readQuoted : Reader (List Char)
  | [] => .error .unexpectedEnd
  | '"' :: rest => .ok ([], rest)
  | '\\' :: 'u' :: a :: b :: c :: d :: rest =>
    prependEscape (unicode? [a, b, c, d]) (readQuoted rest)
  | '\\' :: 'U' :: a :: b :: c :: d :: e :: f :: g :: h :: rest =>
    prependEscape (unicode? [a, b, c, d, e, f, g, h]) (readQuoted rest)
  | '\\' :: c :: rest => prependEscape (unescape? c) (readQuoted rest)
  | c :: rest =>
    if isPlain c && c ≠ '\\' then prepend c (readQuoted rest) else .error (.unexpected c)

/-- Reads a string in apostrophes on one line, after the opening one. -/
def readLiteral : Reader (List Char)
  | [] => .error .unexpectedEnd
  | '\'' :: rest => .ok ([], rest)
  | c :: rest => if isPlain c then prepend c (readLiteral rest) else .error (.unexpected c)

/-- Reads a quoted string over several lines, after its opening quotes. While `joining`, blanks and
line ends are dropped: a backslash at the end of a line joins the lines. Up to two quotes may stand
before the closing three. -/
def readQuotedLines : (joining : Bool) → Reader (List Char)
  | _, [] => .error .unexpectedEnd
  | _, '"' :: '"' :: '"' :: '"' :: '"' :: rest => .ok (['"', '"'], rest)
  | _, '"' :: '"' :: '"' :: '"' :: rest => .ok (['"'], rest)
  | _, '"' :: '"' :: '"' :: rest => .ok ([], rest)
  | joining, '\r' :: '\n' :: rest =>
    if joining then readQuotedLines true rest else prepend '\n' (readQuotedLines false rest)
  | joining, '\n' :: rest =>
    if joining then readQuotedLines true rest else prepend '\n' (readQuotedLines false rest)
  | _, '\\' :: 'u' :: a :: b :: c :: d :: rest =>
    prependEscape (unicode? [a, b, c, d]) (readQuotedLines false rest)
  | _, '\\' :: 'U' :: a :: b :: c :: d :: e :: f :: g :: h :: rest =>
    prependEscape (unicode? [a, b, c, d, e, f, g, h]) (readQuotedLines false rest)
  | _, '\\' :: rest =>
    if (afterLineEnd? (skipBlanks rest)).isSome then readQuotedLines true rest
    else
      match rest with
      | [] => .error .unexpectedEnd
      | c :: rest => prependEscape (unescape? c) (readQuotedLines false rest)
  | joining, c :: rest =>
    if joining && isBlank c then readQuotedLines true rest
    else if isPlain c then prepend c (readQuotedLines false rest)
    else .error (.unexpected c)

/-- Reads a string in apostrophes over several lines, after the opening ones. -/
def readLiteralLines : Reader (List Char)
  | [] => .error .unexpectedEnd
  | '\'' :: '\'' :: '\'' :: '\'' :: '\'' :: rest => .ok (['\'', '\''], rest)
  | '\'' :: '\'' :: '\'' :: '\'' :: rest => .ok (['\''], rest)
  | '\'' :: '\'' :: '\'' :: rest => .ok ([], rest)
  | '\r' :: '\n' :: rest => prepend '\n' (readLiteralLines rest)
  | c :: rest =>
    if isPlain c || c = '\n' then prepend c (readLiteralLines rest) else .error (.unexpected c)

/-- Reads a string of any kind. A line end right after the opening three marks does not count. -/
def readString : Reader String := fun cs => do
  let (text, rest) ←
    match cs with
    | '"' :: '"' :: '"' :: rest => readQuotedLines false ((afterLineEnd? rest).getD rest)
    | '"' :: rest => readQuoted rest
    | '\'' :: '\'' :: '\'' :: rest => readLiteralLines ((afterLineEnd? rest).getD rest)
    | '\'' :: rest => readLiteral rest
    | _ => .error (.atStart cs)
  .ok (.ofList text, rest)

/-! ## Numbers -/

/-- Reads digits among which single underscores may stand, without the underscores. -/
def moreDigits (isDigit : Char → Bool) : List Char → Option (List Char × List Char)
  | [] => some ([], [])
  | ['_'] => none
  | '_' :: c :: rest =>
    if isDigit c then (moreDigits isDigit rest).map fun (cs, rest) => (c :: cs, rest) else none
  | c :: rest =>
    if isDigit c then (moreDigits isDigit rest).map fun (cs, rest) => (c :: cs, rest)
    else some ([], c :: rest)

/-- Reads digits, the first of which has to be there. -/
def someDigits (isDigit : Char → Bool) (cs : List Char) : Option (List Char × List Char) := do
  let (digits, rest) ← moreDigits isDigit cs
  if digits.isEmpty || cs.head? = some '_' then none else some (digits, rest)

/-- Reads the digits of a whole number, without zeros before it. -/
def wholeDigits : List Char → Option (List Char × List Char)
  | '0' :: rest => some (['0'], rest)
  | cs => someDigits Char.isDigit cs

/-- The number that digits to a base spell. -/
def ofDigits (base : Nat) (digits : List Char) : Nat :=
  digits.foldl (fun n c => base * n + (Text.hexDigit? c).getD 0) 0

/-- A whole number, if it fits a signed 64-bit word. -/
def integer (negative : Bool) (n : Nat) : Except TomlError TomlValue :=
  let value : Int := if negative then -n else n
  if -2 ^ 63 ≤ value ∧ value < 2 ^ 63 then .ok (.int value) else .error .invalidNumber

/-- Reads a whole number to the base that a letter after a zero names. -/
def readBased (base : Nat) (isDigit : Char → Bool) : Reader TomlValue := fun cs =>
  match someDigits isDigit cs with
  | none => .error .invalidNumber
  | some (digits, rest) => (integer false (ofDigits base digits)).map fun v => (v, rest)

/-- Whether the number `digits * 10 ^ exponent` rounds to a finite floating point number. -/
def isFinite (digits : Nat) (exponent : Int) : Bool :=
  let leading : Int := exponent + Decimal.countDigits digits
  digits = 0 || leading < -400
    || (leading ≤ 400 && (Decimal.magnitude? ⟨digits, exponent⟩).isSome)

/-- Reads an exponent after its letter: its sign, and its digits. -/
def readExponent (cs : List Char) : Option ((Bool × List Char) × List Char) := do
  let (negative, cs) :=
    match cs with
    | '+' :: rest => (false, rest)
    | '-' :: rest => (true, rest)
    | _ => (false, cs)
  let (digits, rest) ← someDigits Char.isDigit cs
  some ((negative, digits), rest)

/-- A float with the given parts. One that is too large is refused, unless it is negative. -/
def float (negative : Bool) (whole fraction : List Char) (exponent : Bool × List Char) :
    Except TomlError TomlValue :=
  let shift : Int := ofDigits 10 exponent.2
  let power := (if exponent.1 then -shift else shift) - fraction.length
  if negative || isFinite (ofDigits 10 (whole ++ fraction)) power then
    let sign := if negative then ['-'] else []
    let letters := if exponent.1 then ['e', '-'] else ['e']
    .ok (.float (.ofList (sign ++ whole ++ '.' :: fraction ++ letters ++ exponent.2)))
  else .error .invalidNumber

/-- Reads what follows the digits of a whole number. -/
def readAfterWhole (negative : Bool) (whole : List Char) : Reader TomlValue := fun cs =>
  let withExponent (fraction : List Char) (cs : List Char) :
      Except TomlError (TomlValue × List Char) :=
    match readExponent cs with
    | none => .error .invalidNumber
    | some (exponent, rest) => (float negative whole fraction exponent).map fun v => (v, rest)
  match cs with
  | '.' :: rest =>
    match someDigits Char.isDigit rest with
    | none => .error .invalidNumber
    | some (fraction, 'e' :: rest) | some (fraction, 'E' :: rest) => withExponent fraction rest
    | some (fraction, rest) =>
      (float negative whole fraction (false, ['0'])).map fun v => (v, rest)
  | 'e' :: rest | 'E' :: rest => withExponent [] rest
  | rest => (integer negative (ofDigits 10 whole)).map fun v => (v, rest)

/-- Reads a number after its sign. -/
def readUnsigned (negative : Bool) : Reader TomlValue
  | 'i' :: 'n' :: 'f' :: rest => .ok (.float (if negative then "-inf" else "inf"), rest)
  | 'n' :: 'a' :: 'n' :: rest => .ok (.float "nan", rest)
  | cs =>
    match wholeDigits cs with
    | none => .error .invalidNumber
    | some (whole, rest) => readAfterWhole negative whole rest

def readNumber : Reader TomlValue
  | '0' :: 'x' :: rest => readBased 16 (fun c => (Text.hexDigit? c).isSome) rest
  | '0' :: 'o' :: rest => readBased 8 (fun c => '0' ≤ c && c ≤ '7') rest
  | '0' :: 'b' :: rest => readBased 2 (fun c => c = '0' || c = '1') rest
  | '+' :: rest => readUnsigned false rest
  | '-' :: rest => readUnsigned true rest
  | cs => readUnsigned false cs

/-! ## Dates and times -/

/-- Reads a number of exactly `count` digits. -/
def fixedDigits (count : Nat) (cs : List Char) : Option (Nat × List Char) :=
  let digits := cs.take count
  if digits.length = count && digits.all Char.isDigit then
    some (ofDigits 10 digits, cs.drop count)
  else none

/-- Reads a number of two digits between two bounds. -/
def twoDigits (least most : Nat) (cs : List Char) : Option (Nat × List Char) := do
  let (n, rest) ← fixedDigits 2 cs
  if least ≤ n && n ≤ most then some (n, rest) else none

/-- How many days a month has. -/
def daysInMonth (year month : Nat) : Nat :=
  let leap := year % 4 = 0 && (year % 100 ≠ 0 || year % 400 = 0)
  if month = 2 then (if leap then 29 else 28)
  else if [4, 6, 9, 11].contains month then 30
  else 31

/-- A number with zeros before it up to a width. -/
def padded (width n : Nat) : List Char :=
  let digits := Nat.toDigits 10 n
  List.replicate (width - digits.length) '0' ++ digits

/-- Reads a date, in its normal form. -/
def readDate (cs : List Char) : Option (List Char × List Char) := do
  let (year, cs) ← fixedDigits 4 cs
  let cs ← Text.after? ['-'] cs
  let (month, cs) ← twoDigits 1 12 cs
  let cs ← Text.after? ['-'] cs
  let (day, cs) ← twoDigits 1 (daysInMonth year month) cs
  some (padded 4 year ++ '-' :: padded 2 month ++ '-' :: padded 2 day, cs)

/-- The normal form of a fraction of a second: nine digits at most, and no zeros at the end. -/
def secondFraction (digits : List Char) : List Char :=
  let digits := ((digits.take 9).reverse.dropWhile (· = '0')).reverse
  if digits.isEmpty then [] else '.' :: digits

/-- Reads a time of day, in its normal form. -/
def readTime (cs : List Char) : Option (List Char × List Char) := do
  let (hour, cs) ← twoDigits 0 23 cs
  let cs ← Text.after? [':'] cs
  let (minute, cs) ← twoDigits 0 59 cs
  let cs ← Text.after? [':'] cs
  let (second, cs) ← twoDigits 0 60 cs
  let time := padded 2 hour ++ ':' :: padded 2 minute ++ ':' :: padded 2 second
  match cs with
  | '.' :: rest =>
    let digits := rest.takeWhile Char.isDigit
    if digits.isEmpty then none
    else some (time ++ secondFraction digits, rest.drop digits.length)
  | _ => some (time, cs)

/-- Reads the offset from universal time, in its normal form. -/
def readOffset (cs : List Char) : Option (List Char × List Char) :=
  match cs with
  | 'Z' :: rest | 'z' :: rest => some (['Z'], rest)
  | '+' :: rest | '-' :: rest => do
    let (hours, rest) ← twoDigits 0 23 rest
    let rest ← Text.after? [':'] rest
    let (minutes, rest) ← twoDigits 0 59 rest
    let sign := if cs.head? = some '-' && 0 < hours + minutes then '-' else '+'
    some (sign :: padded 2 hours ++ ':' :: padded 2 minutes, rest)
  | _ => some ([], cs)

/-- Whether a character may stand between a date and a time. -/
def isTimeMark (c : Char) : Bool :=
  c = 'T' || c = 't' || c = ' '

/-- Reads a date, a time, or a date and a time with or without offset. -/
def readDatetime (cs : List Char) : Option (TomlValue × List Char) :=
  match readDate cs with
  | none => (readTime cs).map fun (time, rest) => (.datetime (.ofList time), rest)
  | some (date, rest) =>
    let dateOnly := some (TomlValue.datetime (.ofList date), rest)
    match rest with
    | mark :: after =>
      if !isTimeMark mark then dateOnly
      else
        match readTime after with
        | none => dateOnly
        | some (time, after) =>
          (readOffset after).map fun (offset, after) =>
            (.datetime (.ofList (date ++ 'T' :: time ++ offset)), after)
    | [] => dateOnly

/-- Reads a number, a date or a time. -/
def readNumberOrDate : Reader TomlValue := fun cs =>
  match readDatetime cs with
  | some result => .ok result
  | none => readNumber cs

end Findings.Toml
