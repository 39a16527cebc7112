import Findings.Text.Search

/-!
# Lines of a text

Two readings of a text as lines. `segments` cuts at every line feed, so that a final line feed
leaves an empty last segment. `lines` takes a line feed, or a carriage return and a line feed, as
the end of a line, so that a final line feed ends the last line and starts none.
-/

namespace Findings.Text

/-- The pieces of the text between line feeds. -/
def segments (cs : List Char) : List (List Char) :=
  splitAt '\n' cs

/-- A line without the one carriage return that may end it. -/
def dropReturn (cs : List Char) : List Char :=
  if cs.getLast? = some '\r' then cs.dropLast else cs

/-- Ends every segment but the last, which is a line only if it is not empty. -/
def endSegments : List (List Char) → List (List Char)
  | [] => []
  | [last] => if last.isEmpty then [] else [last]
  | segment :: rest => dropReturn segment :: endSegments rest

/-- The lines of the text, without their ends. A carriage return that no line feed follows stays. -/
def lines (cs : List Char) : List (List Char) :=
  endSegments (segments cs)

@[simp] theorem lines_nil : lines [] = [] := rfl

theorem segments_ne_nil (cs : List Char) : segments cs ≠ [] :=
  splitAt_ne_nil _ _

theorem endSegments_of_tail {segment : List Char} {rest : List (List Char)} (h : rest ≠ []) :
    endSegments (segment :: rest) = dropReturn segment :: endSegments rest := by
  cases rest with
  | nil => exact absurd rfl h
  | cons => rfl

end Findings.Text
