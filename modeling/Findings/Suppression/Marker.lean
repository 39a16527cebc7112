import Findings.Source.Cache
import Findings.Suppression.Comment

/-!
# Suppression markers in source comments

A comment may ask for the suppression of findings on its line, or on the first line of code below
it: `quell_suppress`, a list of targets in brackets, and free text. A target is a checker name, an
identity hash, or `all`.
-/

namespace Findings

open Text

/-- A marker: its targets, and the text after the bracket. -/
structure Marker where
  targets : List String
  comment : String
  deriving DecidableEq, Repr

namespace Marker

def keyword : List Char :=
  "quell_suppress".toList

/-- The target that stands for every checker. -/
def allCheckers : String :=
  "all"

/-- Whether a marker names a finding. -/
def appliesTo (marker : Marker) (hash checker : String) : Bool :=
  marker.targets.any fun target => target = allCheckers || target = checker || target = hash

/-- The targets between the brackets: the pieces between commas that are not blank. -/
def readTargets (list : List Char) : List String :=
  (((splitAt ',' list).map trim).filter fun target => !target.isEmpty).map String.ofList

/-- The comment after the bracket, without a closing `*/` at its end. -/
def readComment (rest : List Char) : List Char :=
  let comment := trim rest
  trim ((before? CommentStyle.blockClose comment).getD comment)

/-- Reads the marker after the keyword. -/
def afterKeyword? (rest : List Char) : Option Marker := do
  let list ← after? ['['] (trimStart rest)
  let (list, rest) ← cut? [']'] list
  let targets := readTargets list
  if targets.isEmpty then none
  else some ⟨targets, .ofList (readComment rest)⟩

/-- The marker of a line: the first keyword on it counts, and has to stand inside a comment. -/
def ofLine? (style : CommentStyle) (line : ScannedLine) : Option Marker := do
  let (before, rest) ← cut? keyword line.text
  if line.startsInBlock || style.opensComment before then afterKeyword? rest else none

end Marker

/-- A suppression that a source comment asks for. -/
structure InlineSuppression where
  hash : String
  fileName : String
  comment : String
  deriving DecidableEq, Repr

/-- The marker for a finding on a line of a source file. -/
def markerFor? (style : CommentStyle) (source : SourceFile) (line : Nat) (hash checker : String) :
    Option Marker :=
  ((candidateLines style source line).filterMap (Marker.ofLine? style)).find?
    fun marker => marker.appliesTo hash checker

/-- The suppression that the source at a path asks for, for a finding on a line. -/
def inlineSuppression (sources : SourceCache) (fs : FileSystem) (path : String) (line : Nat)
    (hash checker : String) : Option InlineSuppression × SourceCache :=
  let (source, sources) := sources.file fs path
  let found := do
    let marker ← markerFor? (.ofPath path) (← source) line hash checker
    some { hash, fileName := FilePath.basename path, comment := marker.comment }
  (found, sources)

end Findings
