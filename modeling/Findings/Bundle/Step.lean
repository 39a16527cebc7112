import Findings.Bundle.Location

/-!
# Path steps

The steps of the execution path that leads to a finding. Event steps tell the story of the finding,
control steps connect source ranges; steps of other kinds are kept as they are.
-/

namespace Findings

inductive StepKind where
  | event
  | control
  | other (name : String)
  deriving DecidableEq, Repr

namespace StepKind

def name : StepKind → String
  | event => "event"
  | control => "control"
  | other name => name

def ofName (name : String) : StepKind :=
  if name = "event" then event else if name = "control" then control else other name

def ofJson (value : Json) : Decoded StepKind :=
  (Json.decodeString value).map ofName

@[simp] theorem name_ofName (s : String) : (ofName s).name = s := by
  unfold ofName
  split
  · simp_all [name]
  · split <;> simp_all [name]

end StepKind

/-- A control-flow edge between two lists of locations. -/
structure Edge where
  start : List Location := []
  stop : List Location := []
  /-- The members of the edge with other keys. -/
  extra : List (String × Json) := []

namespace Edge

def keys : List String :=
  ["start", "end"]

def ofJson (value : Json) : Decoded Edge := do
  let members ← Json.decodeMembers keys value
  .ok {
    start := ← Json.listMember Location.ofJson "start" members
    stop := ← Json.listMember Location.ofJson "end" members
    extra := Json.extras keys members }

def toJson (edge : Edge) : Json :=
  .object ([
    ("start", .array (edge.start.map Location.toJson)),
    ("end", .array (edge.stop.map Location.toJson))] ++ edge.extra)

end Edge

/-- One step of an execution path. -/
structure Step where
  kind : StepKind
  location : Option Location := none
  message : Option String := none
  ranges : List (List Location) := []
  edges : List Edge := []
  /-- The members of the step with other keys. -/
  extra : List (String × Json) := []

namespace Step

def keys : List String :=
  ["kind", "location", "message", "ranges", "edges"]

def ofJson (value : Json) : Decoded Step := do
  let members ← Json.decodeMembers keys value
  .ok {
    kind := ← Json.required StepKind.ofJson "kind" members
    location := ← Json.optional Location.ofJson "location" members
    message := ← Json.optional Json.decodeString "message" members
    ranges := ← Json.listMember (Json.decodeList Location.ofJson) "ranges" members
    edges := ← Json.listMember Edge.ofJson "edges" members
    extra := Json.extras keys members }

/-- A member that is left out if there is no value. -/
def optionalMember (key : String) : Option Json → List (String × Json)
  | none => []
  | some value => [(key, value)]

/-- A list that is left out if it is empty. -/
def nonemptyMember (key : String) (items : List Json) : List (String × Json) :=
  if items.isEmpty then [] else [(key, .array items)]

def toJson (step : Step) : Json :=
  .object ([("kind", .string step.kind.name)]
    ++ optionalMember "location" (step.location.map Location.toJson)
    ++ optionalMember "message" (step.message.map .string)
    ++ nonemptyMember "ranges"
        (step.ranges.map fun range => .array (range.map Location.toJson))
    ++ nonemptyMember "edges" (step.edges.map Edge.toJson)
    ++ step.extra)

def isEvent (step : Step) : Bool :=
  step.kind = .event

/-- Every location of a step: its own, those of its ranges, and both ends of its edges. -/
def locations (step : Step) : List Location :=
  step.location.toList ++ step.ranges.flatten
    ++ step.edges.flatMap fun edge => edge.start ++ edge.stop

/-- The file of every location of a step. -/
def files (step : Step) : List FileIndex :=
  step.locations.map Location.file

end Step

end Findings
