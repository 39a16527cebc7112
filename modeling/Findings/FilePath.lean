import Findings.Text.Blank
import Findings.Text.Search

/-!
# File paths

Paths are strings. `basename` cuts at both kinds of separator, because findings may come from
machines that use either. All other functions know `/` only: they read a path as the system that
opens it does.

- `components`: the parts that decide whether two paths are the same cache key.
- `parent?`, `ancestors`: the walk towards the root, on the text of the path.
- `join`: a path relative to a directory.
-/

namespace Findings.FilePath

open Text

/-- The characters that separate directories in a reported path. -/
def isSeparator (c : Char) : Bool :=
  c = '/' || c = '\\'

/-- The last part of a path, ignoring separators at its end. Empty if there is none. -/
def basenameChars (cs : List Char) : List Char :=
  ((cs.reverse.dropWhile isSeparator).takeWhile fun c => !isSeparator c).reverse

/-- The last part of a path, ignoring separators at its end. Empty if there is none. -/
def basename (path : String) : String :=
  .ofList (basenameChars path.toList)

/-- Whether the path starts at the root. -/
def isAbsolute (path : String) : Bool :=
  path.toList.head? = some '/'

/-- One part of a path. -/
inductive Component where
  | root
  | current
  | parent
  | normal (name : String)
  deriving DecidableEq, Repr

/-- The pieces of a path between slashes. -/
def pieces (path : String) : List String :=
  (splitAt '/' path.toList).map String.ofList

/-- Reads one piece; empty pieces and `.` are no part. -/
def Component.ofPiece? (piece : String) : Option Component :=
  if piece = "" || piece = "." then none
  else if piece = ".." then some .parent
  else some (.normal piece)

/-- The parts of a path. Repeated slashes, a slash at the end and `.` do not count, except for a
`.` at the start of a relative path. -/
def components (path : String) : List Component :=
  let parts := pieces path
  let start :=
    if isAbsolute path then [.root] else if parts.head? = some "." then [.current] else []
  start ++ parts.filterMap Component.ofPiece?

/-- The path `path`, taken relative to the directory `base`. An absolute path stays as it is. -/
def join (base path : String) : String :=
  if isAbsolute path || base.isEmpty then path
  else if base.toList.getLast? = some '/' then base ++ path
  else base ++ "/" ++ path

/-- Drops from a reversed path the parts at its end that are empty or `.`. -/
def dropVoid : List Char → List Char
  | [] => []
  | ['.'] => []
  | '/' :: rest => dropVoid rest
  | '.' :: '/' :: rest => dropVoid rest
  | cs => cs

/-- Drops from a reversed path its last part and the slash before it. -/
def dropPart (cs : List Char) : List Char :=
  (cs.dropWhile (· ≠ '/')).drop 1

/-- The root or the leading `.` of a path, and the text after it. -/
def splitStart (path : String) : List Char × List Char :=
  match path.toList with
  | '/' :: rest => (['/'], rest)
  | ['.'] => (['.'], [])
  | '.' :: '/' :: rest => (['.'], '/' :: rest)
  | cs => ([], cs)

/-- The text of the path without its last part. The root and the empty path have no parent. -/
def parent? (path : String) : Option String :=
  let (start, body) := splitStart path
  match dropVoid body.reverse with
  | [] => if start = ['.'] then some "" else none
  | parts => some (.ofList (start ++ (dropVoid (dropPart parts)).reverse))

/-- The path and the parents above it, at most `bound` of them. -/
def ancestorsWithin : Nat → String → List String
  | 0, path => [path]
  | bound + 1, path =>
    match parent? path with
    | none => [path]
    | some up => path :: ancestorsWithin bound up

/-- The path, its parent, and so on to the root or the empty path. -/
def ancestors (path : String) : List String :=
  ancestorsWithin path.length path

/-- The name of the file a path leads to: its last part, unless that is the root, `.` or `..`. -/
def fileName? (path : String) : Option String :=
  match (components path).getLast? with
  | some (.normal name) => some name
  | _ => none

/-- The text after the last dot of the file name, unless that dot starts the name. -/
def extension? (path : String) : Option String := do
  let name ← fileName? path
  match lastIndex? ['.'] name.toList with
  | none | some 0 => none
  | some i => some (.ofList (name.toList.drop (i + 1)))

theorem basename_eq (path : String) :
    (basename path).toList = basenameChars path.toList := by
  simp [basename]

end Findings.FilePath
