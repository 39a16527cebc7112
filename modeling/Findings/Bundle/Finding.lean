import Findings.Bundle.Diagnostic

/-!
# Findings

A diagnostic whose checker name and identity hash are known: the form that is filtered, suppressed
and reported.
-/

namespace Findings

/-- Where the identity hash of a finding comes from. -/
inductive HashOrigin where
  | source
  | derived
  deriving DecidableEq, Repr

structure Finding where
  checkerName : String
  identityHash : String
  hashOrigin : HashOrigin := .source
  location : Location
  description : Option String := none
  path : List Step := []
  extra : List (String × Json) := []

namespace Finding

/-- The file of the finding's own location. -/
def primaryFile (finding : Finding) : FileIndex :=
  finding.location.file

/-- The last event step with a location, or else the last step with one. -/
def lastEvent? (finding : Finding) : Option Step :=
  let located := finding.path.reverse.filter fun step => step.location.isSome
  (located.find? Step.isEvent).or located.head?

/-- The last step, if it has a location. -/
def lastStep? (finding : Finding) : Option Step :=
  finding.path.getLast?.filter fun step => step.location.isSome

/-- The event steps in order. -/
def events (finding : Finding) : List Step :=
  finding.path.filter Step.isEvent

end Finding

end Findings
