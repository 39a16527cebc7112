import Findings.FilePath
import Findings.Source.File

/-!
# Comments in source lines

Which comment syntax a source file uses, and what that makes of its lines: a line may hold nothing
but comments, and may start or end inside a block comment. Lines are classified from the top of the
file, because only the lines before one tell whether it starts inside a block.

String literals are not recognized.
-/

namespace Findings

open Text

/-- The comment syntax of a source file. -/
inductive CommentStyle where
  /-- `//` up to the end of the line, and blocks between `/*` and `*/`. -/
  | slashes
  /-- `#` up to the end of the line. -/
  | hash
  /-- Both of these. -/
  | any
  deriving DecidableEq, Repr

namespace CommentStyle

def slashExtensions : List String :=
  ["c", "h", "cc", "cpp", "cxx", "c++", "hh", "hpp", "hxx", "inl", "m", "mm", "cu", "cuh", "java",
   "js", "jsx", "ts", "tsx", "go", "rs", "swift", "kt", "cs", "scala", "dart"]

def hashExtensions : List String :=
  ["py", "pyi", "sh", "bash", "rb", "pl", "pm", "r", "cmake", "yml", "yaml", "toml", "mk"]

/-- The style that the extension of a path stands for, upper and lower case alike. -/
def ofPath (path : String) : CommentStyle :=
  let ext := (FilePath.extension? path).map fun e => String.ofList (e.toList.map Char.toLower)
  match ext with
  | none => any
  | some ext =>
    if slashExtensions.contains ext then slashes
    else if hashExtensions.contains ext then hash
    else any

def hasSlashes (style : CommentStyle) : Bool :=
  style ≠ hash

def hasHash (style : CommentStyle) : Bool :=
  style ≠ slashes

def lineOpen : List Char := ['/', '/']
def blockOpen : List Char := ['/', '*']
def blockClose : List Char := ['*', '/']

/-- Whether a comment opens somewhere in a text. -/
def opensComment (style : CommentStyle) (before : List Char) : Bool :=
  (style.hasSlashes && (occurs lineOpen before || occurs blockOpen before))
    || (style.hasHash && before.contains '#')

/-- Whether a line that starts with code ends inside a block it opened: after cutting it at the
first `//`, its last `/*` comes after its last `*/`. -/
def leavesBlockOpen (code : List Char) : Bool :=
  let code := ((cut? lineOpen code).map Prod.fst).getD code
  match lastIndex? blockOpen code, lastIndex? blockClose code with
  | some opened, some closed => closed < opened
  | some _, none => true
  | none, _ => false

/-- What a line is. -/
structure LineClass where
  /-- The line holds comments and nothing else. -/
  commentOnly : Bool
  /-- A block comment is open at the end of the line. -/
  endsInBlock : Bool
  deriving DecidableEq, Repr

/-- Peels comments off the front of a text without blanks at its start. `seen` says whether there
was one already. The bound is on the number of comments. -/
def classifyFrom (style : CommentStyle) : Nat → (inBlock seen : Bool) → List Char → LineClass
  | 0, inBlock, seen, _ => ⟨seen, inBlock⟩
  | bound + 1, true, _, rest =>
    match cut? blockClose rest with
    | none => ⟨true, true⟩
    | some (_, after) => classifyFrom style bound false true (trimStart after)
  | bound + 1, false, seen, rest =>
    if rest.isEmpty then ⟨seen, false⟩
    else if (style.hasSlashes && lineOpen.isPrefixOf rest)
        || (style.hasHash && rest.head? = some '#') then ⟨true, false⟩
    else if style.hasSlashes && blockOpen.isPrefixOf rest then
      classifyFrom style bound true seen (rest.drop 2)
    else ⟨false, style.hasSlashes && leavesBlockOpen rest⟩

/-- Classifies a line, given whether it starts inside a block comment. -/
def classify (style : CommentStyle) (line : List Char) (inBlock : Bool) : LineClass :=
  classifyFrom style (line.length + 2) inBlock false (trim line)

end CommentStyle

/-- A source line and its place among comments. -/
structure ScannedLine where
  text : List Char
  startsInBlock : Bool
  commentOnly : Bool
  deriving DecidableEq, Repr

/-- Classifies lines in order, given whether the first starts inside a block. -/
def scanLines (style : CommentStyle) : (inBlock : Bool) → List (List Char) → List ScannedLine
  | _, [] => []
  | inBlock, text :: rest =>
    let cls := style.classify text inBlock
    ⟨text, inBlock, cls.commentOnly⟩ :: scanLines style cls.endsInBlock rest

/-- The lines that can hold a marker for a finding on a line: that line, and above it the lines
that hold only comments, up to the first that does not, the nearest first. -/
def candidateLines (style : CommentStyle) (source : SourceFile) (line : Nat) :
    List ScannedLine :=
  if line = 0 || source.lineCount < line then []
  else
    let texts := (List.range line).map fun i => (source.lineChars? (i + 1)).getD []
    match (scanLines style false texts).reverse with
    | [] => []
    | reported :: above => reported :: above.takeWhile ScannedLine.commentOnly

end Findings
