/-!
# Glob patterns

Patterns for paths: `?` stands for any character, `*` for any text, slashes included, a bracket
list for one character in it (or not in it, after `!`), and `**` as a whole path component for any
number of components. Everything else stands for itself; there is no escape character.

Matching goes through the tokens from the last to the first. For each it computes, for every suffix
of the text, whether that suffix matches the tokens from there on.
-/

namespace Findings

/-- A part of a bracket list; both ends of a range count. -/
inductive CharRange where
  | single (c : Char)
  | between (first last : Char)
  deriving DecidableEq, Repr

def CharRange.contains (c : Char) : CharRange → Bool
  | single d => c = d
  | between first last => first ≤ c && c ≤ last

/-- A part of a pattern. -/
inductive GlobToken where
  | char (c : Char)
  | anyChar
  | oneOf (ranges : List CharRange)
  | noneOf (ranges : List CharRange)
  /-- `*`: any text. -/
  | anyText
  /-- `**`: nothing, all of the rest, or any text that ends in a slash. -/
  | anyComponents
  deriving DecidableEq, Repr

/-- Why a text is no pattern, with the position of the fault in characters. -/
inductive GlobError where
  | tooManyStars (position : Nat)
  | partialComponent (position : Nat)
  | invalidRange (position : Nat)
  deriving DecidableEq, Repr

namespace GlobError

def message : GlobError → String
  | tooManyStars p =>
    s!"Pattern syntax error near position {p}: wildcards are either regular `*` or recursive `**`"
  | partialComponent p =>
    s!"Pattern syntax error near position {p}: recursive wildcards must form a single path component"
  | invalidRange p => s!"Pattern syntax error near position {p}: invalid range pattern"

end GlobError

/-- A pattern. -/
structure Glob where
  tokens : List GlobToken
  deriving DecidableEq, Repr

namespace Glob

/-! ## Reading patterns -/

/-- Reads the inside of a bracket list: `a-z` is a range, all else single characters. -/
def readRanges : List Char → List CharRange
  | first :: '-' :: last :: rest => .between first last :: readRanges rest
  | c :: rest => .single c :: readRanges rest
  | [] => []

/-- Splits at the first closing bracket that is not the first character. -/
def splitBracket : List Char → Option (List Char × List Char)
  | [] => none
  | c :: rest =>
    match rest.idxOf? ']' with
    | none => none
    | some i => some (c :: rest.take i, rest.drop (i + 1))

/-- Reads a bracket list after its opening bracket. -/
def readBracket (cs : List Char) : Option (GlobToken × List Char) :=
  match cs with
  | '!' :: rest => (splitBracket rest).map fun (list, rest) => (.noneOf (readRanges list), rest)
  | _ => (splitBracket cs).map fun (list, rest) => (.oneOf (readRanges list), rest)

/-- Reads a pattern. `position` counts the characters before it, and `previous` is the last of
them; the bound is on the number of tokens. -/
def readTokens : (bound position : Nat) → (previous : Option Char) → List Char →
    Except GlobError (List GlobToken)
  | 0, _, _, _ => .ok []
  | _, _, _, [] => .ok []
  | bound + 1, position, previous, c :: rest =>
    match c with
    | '?' => (readTokens bound (position + 1) (some c) rest).map (.anyChar :: ·)
    | '*' =>
      let stars := (rest.takeWhile (· = '*')).length + 1
      let rest := rest.drop (stars - 1)
      if 2 < stars then .error (.tooManyStars (position + 2))
      else if stars = 1 then
        (readTokens bound (position + 1) (some '*') rest).map (.anyText :: ·)
      else if previous = none || previous = some '/' then
        match rest with
        | [] => .ok [.anyComponents]
        | '/' :: rest =>
          (readTokens bound (position + 3) (some '/') rest).map (.anyComponents :: ·)
        | _ => .error (.partialComponent (position + 2))
      else .error (.partialComponent (position - 1))
    | '[' =>
      match readBracket rest with
      | none => .error (.invalidRange position)
      | some (token, after) =>
        let width := rest.length - after.length
        (readTokens bound (position + 1 + width) (some ']') after).map (token :: ·)
    | _ => (readTokens bound (position + 1) (some c) rest).map (.char c :: ·)

/-- Reads a pattern. -/
def ofString? (pattern : String) : Except GlobError Glob :=
  (readTokens pattern.length 0 none pattern.toList).map Glob.mk

/-! ## Matching -/

/-- Whether a token that stands for one character stands for this one. -/
def accepts (token : GlobToken) (c : Char) : Bool :=
  match token with
  | .char d => c = d
  | .anyChar => true
  | .oneOf ranges => ranges.any (CharRange.contains c)
  | .noneOf ranges => !ranges.any (CharRange.contains c)
  | .anyText | .anyComponents => false

/-- The answers after one character is put before: `row` holds the answers for the suffixes of
`cs`, the longest first. -/
def oneRow (accepts : Char → Bool) (cs : List Char) (row : List Bool) : List Bool :=
  cs.zipWith (fun c answer => accepts c && answer) (row.drop 1) ++ [false]

/-- The answers after any text is put before: whether this suffix or a shorter one matches. -/
def anyRow (row : List Bool) : List Bool :=
  row.foldr (fun answer rest => (answer || rest.head?.getD false) :: rest) []

/-- The answers after a token is put before. -/
def extendRow (token : GlobToken) (cs : List Char) (row : List Bool) : List Bool :=
  match token with
  | .anyText => anyRow row
  | .anyComponents =>
    let atEnd := row.getLast?.getD false
    row.zipWith (fun here below => here || below || atEnd) (anyRow (oneRow (· = '/') cs row))
  | _ => oneRow (accepts token) cs row

/-- For every suffix of a text, the longest first, whether it matches the tokens. -/
def matchRow (cs : List Char) (tokens : List GlobToken) : List Bool :=
  tokens.foldr (fun token row => extendRow token cs row) (cs.map (fun _ => false) ++ [true])

/-- Whether a whole text matches. -/
def matchesText (glob : Glob) (text : String) : Bool :=
  (matchRow text.toList glob.tokens).head?.getD false

end Glob

end Findings
