import Findings.Bundle.Diagnostic
import Findings.Bundle.Finding
import Findings.Digest.Basic
import Findings.Log
import Findings.Source.Cache

/-!
# Identity

What makes two findings the same one. The identity hash of a finding that has none is derived from
the shape of its path: the checker, the source line, column and message of the last step, and for
every step its kind and its distance in lines from the last one. File names, ranges and edges take
no part, and neither do the line numbers themselves, so that a finding keeps its identity when code
above it moves.
-/

namespace Findings

/-- Derives an identity hash from a path, the text of the source file and the checker name. -/
abbrev ContentHasher := List Step → String → String → String

namespace Identity

/-- The location of the last step, if there is a last step and it has one. -/
def anchor? (path : List Step) : Option Location :=
  path.getLast?.bind Step.location

/-- The line of a source text, without the blanks around it. Empty if there is no such line. -/
def trimmedLine (source : String) (line : Nat) : String :=
  match line with
  | 0 => ""
  | i + 1 => .ofList (Text.trim (((Text.lines source.toList)[i]?).getD []))

/-- What the last step contributes, if it has a location. -/
def anchorFields (path : List Step) (source : String) : List Field :=
  match path.getLast?, anchor? path with
  | some last, some location => [
      .ofString (trimmedLine source location.line.toNat),
      .int location.col.toNat,
      .ofString (last.message.getD "")]
  | _, _ => []

/-- How far a step is from a line; zero for a step without a location. -/
def offset (anchorLine : Int) (step : Step) : Int :=
  match step.location with
  | some location => location.line.toNat - anchorLine
  | none => 0

/-- What one step contributes. -/
def stepFields (anchorLine : Int) (step : Step) : List Field :=
  [.ofString step.kind.name, .int (offset anchorLine step)]

/-- All that is digested for a finding. -/
def fields (path : List Step) (source checker : String) : List Field :=
  let anchorLine : Int :=
    match anchor? path with
    | some location => location.line.toNat
    | none => 0
  .ofString checker :: anchorFields path source ++ path.flatMap (stepFields anchorLine)

/-- The digest of the shape of a path. -/
def pathShape : ContentHasher := fun path source checker =>
  (Digest.ofFields (fields path source checker)).text

/-! ## Resolving what a diagnostic lacks -/

/-- The checker name of a diagnostic without one. -/
def unknownChecker : String :=
  "unknown"

/-- A text that is there and is not empty. -/
def nonempty? (s : Option String) : Option String :=
  s.filter (· ≠ "")

/-- The checker name of a diagnostic from the bundle `origin`. -/
def checkerName (diagnostic : Diagnostic) (origin : String) : String × Log :=
  match nonempty? diagnostic.checkerName with
  | some name => (name, [])
  | none =>
    (unknownChecker, [.warn s!"checker name was not found in bundle '{origin}'"])

/-- The identity hash of a diagnostic whose source is at `sourcePath`. A hash in the bundle is
trusted. A source that cannot be read counts as empty. -/
def identityHash (diagnostic : Diagnostic) (hasher : ContentHasher) (sourcePath checker : String)
    (sources : SourceCache) (fs : FileSystem) : (String × HashOrigin) × SourceCache :=
  match nonempty? diagnostic.identityHash with
  | some hash => ((hash, .source), sources)
  | none =>
    let (content, sources) := sources.content fs sourcePath
    ((hasher diagnostic.path (content.getD "") checker, .derived), sources)

theorem pathShape_ne_empty (path : List Step) (source checker : String) :
    pathShape path source checker ≠ "" := by
  intro h
  have := Digest.length_text (Digest.ofFields (fields path source checker))
  simp only [pathShape] at h
  simp [h] at this

end Identity

end Findings
