import Findings.Bundle.Finding
import Findings.Proofs.Bundle.Decoding

/-!
# Records without their extra members

What the members of a record with other keys hold is only kept to be written back, and it is the
only part of a record that may hold a floating point number. So a record looks the same without
these members (`plain`) after the floating point numbers in its text are changed.

* `Location.ignoresFloats_ofJson`, `Edge.ignoresFloats_ofJson`, `Step.ignoresFloats_ofJson`,
  `Diagnostic.ignoresFloats_ofJson`, `FileTable.ignoresFloats_ofJson`: this, for each record.
* `FileTable.toJson_mapFloats`: a file table has no floating point numbers.
* `Step.files_plain`, `Diagnostic.files_plain`: a plain record refers to the same files.
-/

namespace Findings

/-! ## Plain records -/

def Location.plain (location : Location) : Location :=
  { location with extra := [] }

def Edge.plain (edge : Edge) : Edge where
  start := edge.start.map Location.plain
  stop := edge.stop.map Location.plain

def Step.plain (step : Step) : Step where
  kind := step.kind
  location := step.location.map Location.plain
  message := step.message
  ranges := step.ranges.map (List.map Location.plain)
  edges := step.edges.map Edge.plain

def Diagnostic.plain (diagnostic : Diagnostic) : Diagnostic where
  location := diagnostic.location.plain
  path := diagnostic.path.map Step.plain
  checkerName := diagnostic.checkerName
  identityHash := diagnostic.identityHash
  description := diagnostic.description

/-- The finding as it is reported. Where its hash comes from is not told either. -/
def Finding.plain (finding : Finding) : Finding where
  checkerName := finding.checkerName
  identityHash := finding.identityHash
  location := finding.location.plain
  description := finding.description
  path := finding.path.map Step.plain

/-- Records that look the same have the same hash, file and checker name. -/
theorem Diagnostic.fields_of_plain_eq {diagnostic other : Diagnostic}
    (h : other.plain = diagnostic.plain) :
    other.identityHash = diagnostic.identityHash ∧ other.primaryFile = diagnostic.primaryFile ∧
      other.checkerName = diagnostic.checkerName :=
  ⟨(congrArg identityHash h :), (congrArg primaryFile h :), (congrArg checkerName h :)⟩

/-! ## Files -/

theorem Step.files_plain (step : Step) : step.plain.files = step.files := by
  simp only [files, locations, plain, List.map_append, List.map_flatMap, List.flatMap_map,
    List.map_flatten, List.map_map, Edge.plain, Function.comp_def]
  cases step.location <;> rfl

theorem Diagnostic.files_plain (diagnostic : Diagnostic) :
    diagnostic.plain.files = diagnostic.files := by
  simp only [files, plain, List.flatMap_map, Step.files_plain]
  rfl

/-! ## Floating point numbers -/

section Floats

open Json (ignoresFloats_decodeString ignoresFloats_decodeUInt32 ignoresFloats_decodeUInt64
  decodeMembers_mapFloats)

theorem Location.ignoresFloats_ofJson : Json.IgnoresFloats Location.ofJson Location.plain := by
  intro φ value
  refine (decodeMembers_mapFloats φ keys value).bind ?_
  rintro members _ rfl
  refine (ignoresFloats_decodeUInt32.required φ "line" members).bind fun line line' hline => ?_
  refine (ignoresFloats_decodeUInt32.required φ "col" members).bind fun col col' hcol => ?_
  refine (ignoresFloats_decodeUInt64.required φ "file" members).bind fun file file' hfile => ?_
  obtain rfl : line' = line := hline
  obtain rfl : col' = col := hcol
  obtain rfl : file' = file := hfile
  exact .ok rfl

theorem Edge.ignoresFloats_ofJson : Json.IgnoresFloats Edge.ofJson Edge.plain := by
  intro φ value
  have hlist := Location.ignoresFloats_ofJson.decodeList
  refine (decodeMembers_mapFloats φ keys value).bind ?_
  rintro members _ rfl
  refine (hlist.withDefault φ "start" members []).bind fun start start' hstart => ?_
  refine (hlist.withDefault φ "end" members []).bind fun stop stop' hstop => ?_
  exact .ok (by simp only [plain, hstart, hstop])

theorem StepKind.ignoresFloats_ofJson : Json.IgnoresFloats StepKind.ofJson id := by
  intro φ value
  refine (ignoresFloats_decodeString φ value).map fun name name' hname => ?_
  exact congrArg ofName hname

theorem Step.ignoresFloats_ofJson : Json.IgnoresFloats Step.ofJson Step.plain := by
  intro φ value
  have hlocation := Location.ignoresFloats_ofJson
  refine (decodeMembers_mapFloats φ keys value).bind ?_
  rintro members _ rfl
  refine (StepKind.ignoresFloats_ofJson.required φ "kind" members).bind fun kind kind' hkind => ?_
  refine (hlocation.decodeOption.withDefault φ "location" members none).bind
    fun location location' hl => ?_
  refine (ignoresFloats_decodeString.decodeOption.withDefault φ "message" members none).bind
    fun message message' hmessage => ?_
  refine (hlocation.decodeList.decodeList.withDefault φ "ranges" members []).bind
    fun ranges ranges' hranges => ?_
  refine (Edge.ignoresFloats_ofJson.decodeList.withDefault φ "edges" members []).bind
    fun edges edges' hedges => ?_
  obtain rfl : kind' = kind := hkind
  obtain rfl : message' = message := by simpa using hmessage
  exact .ok (by simp only [plain, hl, hranges, hedges])

theorem Diagnostic.ignoresFloats_ofJson :
    Json.IgnoresFloats Diagnostic.ofJson Diagnostic.plain := by
  intro φ value
  have htext := ignoresFloats_decodeString.decodeOption
  refine (decodeMembers_mapFloats φ keys value).bind ?_
  rintro members _ rfl
  refine (Location.ignoresFloats_ofJson.required φ "location" members).bind
    fun location location' hlocation => ?_
  refine (Step.ignoresFloats_ofJson.decodeList.withDefault φ "path" members []).bind
    fun path path' hpath => ?_
  refine (htext.withDefault φ checkerKey members none).bind fun checker checker' hchecker => ?_
  refine (htext.withDefault φ hashKey members none).bind fun hash hash' hhash => ?_
  refine (htext.withDefault φ "description" members none).bind
    fun description description' hdescription => ?_
  obtain rfl : checker' = checker := by simpa using hchecker
  obtain rfl : hash' = hash := by simpa using hhash
  obtain rfl : description' = description := by simpa using hdescription
  exact .ok (by simp only [plain, hlocation, hpath])

theorem FileTable.ignoresFloats_ofJson : Json.IgnoresFloats FileTable.ofJson id := by
  intro φ value
  refine (ignoresFloats_decodeString.decodeList φ value).map fun paths paths' hpaths => ?_
  rw [List.map_id, List.map_id] at hpaths
  exact congrArg mk hpaths

theorem FileTable.toJson_mapFloats (φ : Binary64 → Binary64) (files : FileTable) :
    files.toJson.mapFloats φ = files.toJson :=
  ofJson_eq_ok_iff.1 ((ignoresFloats_ofJson.eq φ _).trans (ofJson_eq_ok_iff.2 rfl))

end Floats

end Findings
