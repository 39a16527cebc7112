import Findings.Proofs.Bundle.Decoding
import Findings.Proofs.Json.Encode
import Findings.Proofs.Json.Parsed

/-!
# Writing bundles and reading them again

Every record of a bundle is written such that it is read again, and with all members that it was
read with but does not know (`faithful`, for each record). What is kept is said record by record:
`Location.Keeps`, `Edge.Keeps`, `Step.Keeps`, `Diagnostic.Keeps` and `Bundle.Keeps` follow the
nesting of the schema and say at each level that other keys keep their values and their order.

* `Bundle.parse_render`: a bundle that was read from a text is read again from what it is written
  as, it is then written the same, and what is written has all other keys of the text.
-/

namespace Findings

open Json (Faithful KeepsAt KeepsOthers PartsKept)

variable {members : List (String × Json)}

/-! ## Locations -/

/-- A location keeps the members with other keys. -/
def Location.Keeps (raw encoded : Json) : Prop :=
  KeepsOthers keys raw encoded

/-- The members that a location has of its own. -/
def Location.own (location : Location) : List (String × Json) :=
  [("line", .ofNat location.line.toNat), ("col", .ofNat location.col.toNat),
    ("file", .ofNat location.file.toNat)]

theorem Location.toJson_eq (location : Location) :
    location.toJson = .object (location.own ++ location.extra) := rfl

theorem Location.keys_own (location : Location) : (Entries.keys location.own).Sublist keys :=
  List.Sublist.refl _

theorem Location.faithful : Faithful ofJson toJson 1 Keeps where
  ne_null _ := nofun
  decode_encode {value location} h := by
    obtain ⟨members, rfl, -, hl, hc, hf, he⟩ := ofJson_eq_ok_iff.1 h
    refine ofJson_eq_ok_iff.2 ⟨location.own ++ location.extra, rfl, ?_⟩
    rw [he]
    refine ⟨Json.no_repeats_written location.keys_own (by decide), ?_, ?_, ?_, ?_⟩
    · exact Json.faithful_uint32.required.decode_written hl (Json.get?_written (by decide))
    · exact Json.faithful_uint32.required.decode_written hc (Json.get?_written (by decide))
    · exact Json.faithful_uint64.required.decode_written hf (Json.get?_written (by decide))
    · exact he.trans (Json.extras_written location.keys_own).symm
  within {P depth value location} hP hroom h hw := by
    obtain ⟨members, rfl, -, hl, hc, hf, he⟩ := ofJson_eq_ok_iff.1 h
    obtain ⟨depth, rfl⟩ : ∃ d, depth = d + 1 := ⟨depth - 1, by omega⟩
    rw [toJson_eq, he]
    refine Json.within_written hw fun member hm => ?_
    simp only [own, List.mem_cons, List.not_mem_nil, or_false] at hm
    rcases hm with rfl | rfl | rfl
    · exact Json.faithful_uint32.required.within hP (Nat.zero_le _) hl hw _ rfl
    · exact Json.faithful_uint32.required.within hP (Nat.zero_le _) hc hw _ rfl
    · exact Json.faithful_uint64.required.within hP (Nat.zero_le _) hf hw _ rfl
  keeps {value location} h := by
    obtain ⟨members, rfl, -, -, -, -, he⟩ := ofJson_eq_ok_iff.1 h
    rw [toJson_eq, he]
    exact Json.keepsOthers_written location.keys_own

theorem Location.keepsAt_required {key : String} {members written : List (String × Json)}
    {location : Location} (hr : Json.required ofJson key members = .ok location)
    (hw : Entries.get? key written = some location.toJson) :
    KeepsAt Keeps key (.object members) (.object written) := by
  obtain ⟨value, hv, hd⟩ := Json.required_eq_ok hr
  obtain ⟨inner, rfl, -⟩ := ofJson_eq_ok_iff.1 hd
  have hk : Keeps (.object inner) location.toJson := faithful.keeps hd
  simp only [KeepsAt, Json.partsAt, Json.get?, hv, hw]
  exact .cons hk .nil

theorem Location.keepsAt_optional {key : String} {members written : List (String × Json)}
    {found : Option Location} (hr : Json.optional ofJson key members = .ok found)
    (hw : Entries.get? key written = found.map toJson) :
    KeepsAt Keeps key (.object members) (.object written) := by
  rcases Json.optional_eq_ok_iff.1 hr with ⟨rfl, hnull⟩ | ⟨value, location, hv, -, hd, rfl⟩
  · have hparts : Json.partsAt key (.object members) = [] := by
      cases hv : Entries.get? key members with
      | none => simp [Json.partsAt, Json.get?, hv]
      | some value => simp [Json.partsAt, Json.get?, hv, hnull value hv, Json.parts]
    rw [KeepsAt, hparts, Json.partsAt, Json.get?, hw]
    exact .nil
  · have hr : Json.required ofJson key members = .ok location := by
      rwa [Json.required, hv]
    exact keepsAt_required hr hw

/-! ## Edges -/

/-- An edge keeps the members with other keys, its own and those of its locations. -/
structure Edge.Keeps (raw encoded : Json) : Prop where
  others : KeepsOthers keys raw encoded
  start : KeepsAt Location.Keeps "start" raw encoded
  stop : KeepsAt Location.Keeps "end" raw encoded

/-- The members that an edge has of its own. -/
def Edge.own (edge : Edge) : List (String × Json) :=
  [("start", .array (edge.start.map Location.toJson)),
    ("end", .array (edge.stop.map Location.toJson))]

theorem Edge.toJson_eq (edge : Edge) : edge.toJson = .object (edge.own ++ edge.extra) := rfl

theorem Edge.keys_own (edge : Edge) : (Entries.keys edge.own).Sublist keys :=
  List.Sublist.refl _

theorem Edge.faithful : Faithful ofJson toJson 3 Keeps where
  ne_null _ := nofun
  decode_encode {value edge} h := by
    obtain ⟨members, rfl, -, hs, ht, he⟩ := ofJson_eq_ok_iff.1 h
    refine ofJson_eq_ok_iff.2 ⟨edge.own ++ edge.extra, rfl, ?_⟩
    rw [he]
    refine ⟨Json.no_repeats_written edge.keys_own (by decide), ?_, ?_, ?_⟩
    · exact Location.faithful.listMember.decode_written hs (Json.get?_written (by decide))
    · exact Location.faithful.listMember.decode_written ht (Json.get?_written (by decide))
    · exact he.trans (Json.extras_written edge.keys_own).symm
  within {P depth value edge} hP hroom h hw := by
    obtain ⟨members, rfl, -, hs, ht, he⟩ := ofJson_eq_ok_iff.1 h
    obtain ⟨depth, rfl⟩ : ∃ d, depth = d + 1 := ⟨depth - 1, by omega⟩
    have hroom : 2 ≤ depth := by omega
    rw [toJson_eq, he]
    refine Json.within_written hw fun member hm => ?_
    simp only [own, List.mem_cons, List.not_mem_nil, or_false] at hm
    rcases hm with rfl | rfl
    · exact Location.faithful.listMember.within hP hroom hs hw _ rfl
    · exact Location.faithful.listMember.within hP hroom ht hw _ rfl
  keeps {value edge} h := by
    obtain ⟨members, rfl, -, hs, ht, he⟩ := ofJson_eq_ok_iff.1 h
    rw [toJson_eq, he]
    refine ⟨Json.keepsOthers_written edge.keys_own, ?_, ?_⟩
    · refine Location.faithful.keepsAt_list hs ?_
      rw [Json.get?_written (by decide)]
      rfl
    · refine Location.faithful.keepsAt_list ht ?_
      rw [Json.get?_written (by decide)]
      rfl

/-! ## Steps -/

theorem StepKind.faithful : Faithful ofJson (fun kind => .string kind.name) 0 fun _ _ => True where
  ne_null _ := nofun
  decode_encode {value kind} h := by
    obtain ⟨name, -, rfl⟩ := map_eq_ok_iff.1 h
    exact map_eq_ok_iff.2 ⟨name, by rw [name_ofName]; rfl, rfl⟩
  within _ _ _ _ := Json.within_leaf rfl rfl
  keeps _ := trivial

namespace Step

theorem nonemptyMember_eq (key : String) (items : List Json) :
    nonemptyMember key items =
      optionalMember key (if items.isEmpty then none else some (.array items)) := by
  cases items <;> rfl

@[simp] theorem get?_optionalMember (key other : String) (value? : Option Json) :
    Entries.get? other (optionalMember key value?) = if key = other then value? else none := by
  cases value? <;> simp [optionalMember, Entries.get?]

theorem keys_optionalMember (key : String) (value? : Option Json) :
    (Entries.keys (optionalMember key value?)).Sublist [key] := by
  cases value? <;> simp [optionalMember, Entries.keys]

theorem mem_optionalMember {key : String} {value? : Option Json} {member : String × Json} :
    member ∈ optionalMember key value? ↔ member.1 = key ∧ member.2 ∈ value? := by
  cases value? <;> simp [optionalMember, Prod.ext_iff, eq_comm]

end Step

/-- A step keeps the members with other keys, its own and those of all its locations and edges. -/
structure Step.Keeps (raw encoded : Json) : Prop where
  others : KeepsOthers keys raw encoded
  location : KeepsAt Location.Keeps "location" raw encoded
  ranges : KeepsAt (PartsKept Location.Keeps) "ranges" raw encoded
  edges : KeepsAt Edge.Keeps "edges" raw encoded

/-- The members that a step has of its own. -/
def Step.own (step : Step) : List (String × Json) :=
  [("kind", .string step.kind.name)]
    ++ optionalMember "location" (step.location.map Location.toJson)
    ++ optionalMember "message" (step.message.map .string)
    ++ nonemptyMember "ranges"
        (step.ranges.map fun range => .array (range.map Location.toJson))
    ++ nonemptyMember "edges" (step.edges.map Edge.toJson)

theorem Step.toJson_eq (step : Step) : step.toJson = .object (step.own ++ step.extra) := rfl

theorem Step.keys_own (step : Step) : (Entries.keys step.own).Sublist keys := by
  simp only [own, Entries.keys, List.map_append, nonemptyMember_eq]
  have h := keys_optionalMember
  exact (((List.Sublist.refl ["kind"]).append (h "location" _)).append (h "message" _)).append
    (h "ranges" _) |>.append (h "edges" _)

/-- What is written under each key of a step. -/
structure Step.Writes (written : List (String × Json)) (step : Step) : Prop where
  kind : Entries.get? "kind" written = some (.string step.kind.name)
  location : Entries.get? "location" written = step.location.map Location.toJson
  message : Entries.get? "message" written = step.message.map .string
  ranges : Entries.get? "ranges" written = if step.ranges.isEmpty then none else
    some (.array (step.ranges.map fun range => .array (range.map Location.toJson)))
  edges : Entries.get? "edges" written =
    if step.edges.isEmpty then none else some (.array (step.edges.map Edge.toJson))

theorem Step.writes (step : Step) : step.Writes (step.own ++ Json.extras keys members) := by
  constructor
  all_goals
    rw [Json.get?_written (by decide)]
    simp [own, Entries.get?_append, Entries.get?, nonemptyMember_eq]

theorem Step.faithful : Faithful ofJson toJson 5 Keeps where
  ne_null _ := nofun
  decode_encode {value step} h := by
    obtain ⟨members, rfl, -, hk, hl, hm, hr, hd, he⟩ := ofJson_eq_ok_iff.1 h
    refine ofJson_eq_ok_iff.2 ⟨step.own ++ step.extra, rfl, ?_⟩
    rw [he]
    have hw : step.Writes (step.own ++ Json.extras keys members) := step.writes
    refine ⟨Json.no_repeats_written step.keys_own (by decide), ?_, ?_, ?_, ?_, ?_, ?_⟩
    · exact StepKind.faithful.required.decode_written hk hw.kind
    · exact Location.faithful.optional.decode_written hl hw.location
    · exact Json.faithful_string.optional.decode_written hm hw.message
    · exact Location.faithful.list.nonemptyMember.decode_written hr hw.ranges
    · exact Edge.faithful.nonemptyMember.decode_written hd hw.edges
    · exact he.trans (Json.extras_written step.keys_own).symm
  within {P depth value step} hP hroom h hw := by
    obtain ⟨members, rfl, -, hk, hl, hm, hr, hd, he⟩ := ofJson_eq_ok_iff.1 h
    obtain ⟨depth, rfl⟩ : ∃ d, depth = d + 1 := ⟨depth - 1, by omega⟩
    rw [toJson_eq, he]
    refine Json.within_written hw fun member hmem => ?_
    simp only [own, List.mem_append, List.mem_singleton, nonemptyMember_eq,
      mem_optionalMember] at hmem
    obtain (((rfl | ⟨-, hv⟩) | ⟨-, hv⟩) | ⟨-, hv⟩) | ⟨-, hv⟩ := hmem
    · exact StepKind.faithful.required.within hP (Nat.zero_le _) hk hw _ rfl
    · exact Location.faithful.optional.within hP (by omega) hl hw _ hv
    · exact Json.faithful_string.optional.within hP (by omega) hm hw _ hv
    · exact Location.faithful.list.nonemptyMember.within hP (by omega) hr hw _ (by simpa using hv)
    · exact Edge.faithful.nonemptyMember.within hP (by omega) hd hw _ (by simpa using hv)
  keeps {value step} h := by
    obtain ⟨members, rfl, -, hk, hl, hm, hr, hd, he⟩ := ofJson_eq_ok_iff.1 h
    have hw : step.Writes (step.own ++ Json.extras keys members) := step.writes
    rw [toJson_eq, he]
    refine ⟨Json.keepsOthers_written step.keys_own, ?_, ?_, ?_⟩
    · exact Location.keepsAt_optional hl hw.location
    · exact Location.faithful.list.keepsAt_list hr (by rw [hw.ranges]; cases step.ranges <;> rfl)
    · exact Edge.faithful.keepsAt_list hd (by rw [hw.edges]; cases step.edges <;> rfl)

/-! ## Diagnostics -/

/-- A diagnostic keeps the members with other keys, its own and those of its location and steps. -/
structure Diagnostic.Keeps (raw encoded : Json) : Prop where
  others : KeepsOthers keys raw encoded
  location : KeepsAt Location.Keeps "location" raw encoded
  path : KeepsAt Step.Keeps "path" raw encoded

/-- The members that a diagnostic has of its own. -/
def Diagnostic.own (diagnostic : Diagnostic) : List (String × Json) :=
  [("location", diagnostic.location.toJson),
    ("path", .array (diagnostic.path.map Step.toJson))]
    ++ Step.optionalMember checkerKey (diagnostic.checkerName.map .string)
    ++ Step.optionalMember hashKey (diagnostic.identityHash.map .string)
    ++ Step.optionalMember "description" (diagnostic.description.map .string)

theorem Diagnostic.toJson_eq (diagnostic : Diagnostic) :
    diagnostic.toJson = .object (diagnostic.own ++ diagnostic.extra) := rfl

theorem Diagnostic.keys_own (diagnostic : Diagnostic) :
    (Entries.keys diagnostic.own).Sublist keys := by
  simp only [own, Entries.keys, List.map_append]
  have h := Step.keys_optionalMember
  exact (((List.Sublist.refl ["location", "path"]).append (h checkerKey _)).append
    (h hashKey _)).append (h "description" _)

/-- What is written under each key of a diagnostic. -/
structure Diagnostic.Writes (written : List (String × Json)) (diagnostic : Diagnostic) :
    Prop where
  location : Entries.get? "location" written = some diagnostic.location.toJson
  path : Entries.get? "path" written = some (.array (diagnostic.path.map Step.toJson))
  checkerName : Entries.get? checkerKey written = diagnostic.checkerName.map .string
  identityHash : Entries.get? hashKey written = diagnostic.identityHash.map .string
  description : Entries.get? "description" written = diagnostic.description.map .string

theorem Diagnostic.writes (diagnostic : Diagnostic) :
    diagnostic.Writes (diagnostic.own ++ Json.extras keys members) := by
  constructor
  all_goals
    rw [Json.get?_written (by decide)]
    simp [own, Entries.get?_append, Entries.get?, checkerKey, hashKey]

theorem Diagnostic.faithful : Faithful ofJson toJson 7 Keeps where
  ne_null _ := nofun
  decode_encode {value diagnostic} h := by
    obtain ⟨members, rfl, -, hl, hp, hc, hh, hd, he⟩ := ofJson_eq_ok_iff.1 h
    refine ofJson_eq_ok_iff.2 ⟨diagnostic.own ++ diagnostic.extra, rfl, ?_⟩
    rw [he]
    have hw : diagnostic.Writes (diagnostic.own ++ Json.extras keys members) := diagnostic.writes
    refine ⟨Json.no_repeats_written diagnostic.keys_own (by decide), ?_, ?_, ?_, ?_, ?_, ?_⟩
    · exact Location.faithful.required.decode_written hl hw.location
    · exact Step.faithful.listMember.decode_written hp hw.path
    · exact Json.faithful_string.optional.decode_written hc hw.checkerName
    · exact Json.faithful_string.optional.decode_written hh hw.identityHash
    · exact Json.faithful_string.optional.decode_written hd hw.description
    · exact he.trans (Json.extras_written diagnostic.keys_own).symm
  within {P depth value diagnostic} hP hroom h hw := by
    obtain ⟨members, rfl, -, hl, hp, hc, hh, hd, he⟩ := ofJson_eq_ok_iff.1 h
    obtain ⟨depth, rfl⟩ : ∃ d, depth = d + 1 := ⟨depth - 1, by omega⟩
    rw [toJson_eq, he]
    refine Json.within_written hw fun member hm => ?_
    simp only [own, List.mem_append, List.mem_cons, List.not_mem_nil, or_false,
      Step.mem_optionalMember] at hm
    obtain (((rfl | rfl) | ⟨-, hv⟩) | ⟨-, hv⟩) | ⟨-, hv⟩ := hm
    · exact Location.faithful.required.within hP (by omega) hl hw _ rfl
    · exact Step.faithful.listMember.within hP (Nat.le_of_succ_le_succ hroom) hp hw _ rfl
    · exact Json.faithful_string.optional.within hP (Nat.zero_le _) hc hw _ hv
    · exact Json.faithful_string.optional.within hP (Nat.zero_le _) hh hw _ hv
    · exact Json.faithful_string.optional.within hP (Nat.zero_le _) hd hw _ hv
  keeps {value diagnostic} h := by
    obtain ⟨members, rfl, -, hl, hp, -, -, -, he⟩ := ofJson_eq_ok_iff.1 h
    have hw : diagnostic.Writes (diagnostic.own ++ Json.extras keys members) := diagnostic.writes
    rw [toJson_eq, he]
    refine ⟨Json.keepsOthers_written diagnostic.keys_own, ?_, ?_⟩
    · exact Location.keepsAt_required hl hw.location
    · exact Step.faithful.keepsAt_list hp (by rw [hw.path]; rfl)

/-! ## Bundles -/

theorem FileTable.faithful : Faithful ofJson toJson 1 fun _ _ => True where
  ne_null _ := nofun
  decode_encode {value files} h := by
    obtain ⟨paths, hp, rfl⟩ := map_eq_ok_iff.1 h
    exact map_eq_ok_iff.2 ⟨paths, Json.faithful_string.list.decode_encode hp, rfl⟩
  within {P depth value files} hP hroom h hw := by
    obtain ⟨paths, hp, rfl⟩ := map_eq_ok_iff.1 h
    exact Json.faithful_string.list.within hP hroom hp hw
  keeps _ := trivial

/-- A bundle keeps the members with other keys, its own and those of its diagnostics. -/
structure Bundle.Keeps (raw encoded : Json) : Prop where
  others : KeepsOthers keys raw encoded
  diagnostics : KeepsAt Diagnostic.Keeps "diagnostics" raw encoded

/-- The members that a bundle has of its own. -/
def Bundle.own (bundle : Bundle) : List (String × Json) :=
  [("files", bundle.files.toJson),
    ("diagnostics", .array (bundle.diagnostics.map Diagnostic.toJson))]

theorem Bundle.toJson_eq (bundle : Bundle) :
    bundle.toJson = .object (bundle.own ++ bundle.extra) := rfl

theorem Bundle.keys_own (bundle : Bundle) : (Entries.keys bundle.own).Sublist keys :=
  List.Sublist.refl _

theorem Bundle.faithful : Faithful ofJson toJson 9 Keeps where
  ne_null _ := nofun
  decode_encode {value bundle} h := by
    obtain ⟨members, rfl, -, hf, hd, he⟩ := ofJson_eq_ok_iff.1 h
    refine ofJson_eq_ok_iff.2 ⟨bundle.own ++ bundle.extra, rfl, ?_⟩
    rw [he]
    refine ⟨Json.no_repeats_written bundle.keys_own (by decide), ?_, ?_, ?_⟩
    · exact FileTable.faithful.required.decode_written hf (Json.get?_written (by decide))
    · exact Diagnostic.faithful.listMember.decode_written hd (Json.get?_written (by decide))
    · exact he.trans (Json.extras_written bundle.keys_own).symm
  within {P depth value bundle} hP hroom h hw := by
    obtain ⟨members, rfl, -, hf, hd, he⟩ := ofJson_eq_ok_iff.1 h
    obtain ⟨depth, rfl⟩ : ∃ d, depth = d + 1 := ⟨depth - 1, by omega⟩
    rw [toJson_eq, he]
    refine Json.within_written hw fun member hm => ?_
    simp only [own, List.mem_cons, List.not_mem_nil, or_false] at hm
    rcases hm with rfl | rfl
    · exact FileTable.faithful.required.within hP (by omega) hf hw _ rfl
    · exact Diagnostic.faithful.listMember.within hP (Nat.le_of_succ_le_succ hroom) hd hw _ rfl
  keeps {value bundle} h := by
    obtain ⟨members, rfl, -, hf, hd, he⟩ := ofJson_eq_ok_iff.1 h
    rw [toJson_eq, he]
    refine ⟨Json.keepsOthers_written bundle.keys_own, ?_⟩
    refine Diagnostic.faithful.keepsAt_list hd ?_
    rw [Json.get?_written (by decide)]
    rfl

/-- The text of a bundle that was read from a text is the text of a document. -/
theorem Bundle.parse_compact_toJson {content origin : String} {bundle : Bundle}
    (h : Bundle.parse content origin = .ok bundle)
    (hf : Json.FloatsReadBack content) :
    Json.parse bundle.render = .ok bundle.toJson := by
  obtain ⟨value, hv, hb⟩ := parse_eq_ok_iff.1 h
  have hint (n : UInt64) : (Number.int n.toNat).ReadsBack := by
    have hn := n.toNat_lt
    exact Number.readsBack_int ⟨by omega, by omega⟩
  have hw := Json.within_readsBack_collapse hv (hf value hv)
  exact Json.parse_compact (faithful.within hint (by decide) (ofJson_collapse hb) hw)

/-- A bundle that was read from a text is read again from what it is written as, and is then written
the same. All keys that no schema has are in what is written, at their level, in their order and
with their last values. Floating point numbers of the text are assumed to be read back. -/
theorem Bundle.parse_render {content origin : String} {bundle : Bundle}
    (h : Bundle.parse content origin = .ok bundle)
    (hf : Json.FloatsReadBack content) (other : String) :
    Bundle.parse bundle.render other = .ok bundle ∧
      (Bundle.parse bundle.render other).map Bundle.render = .ok bundle.render ∧
      ∃ value encoded, Json.parse content = .ok value ∧ Json.parse bundle.render = .ok encoded ∧
        Bundle.Keeps value encoded := by
  obtain ⟨value, hv, hb⟩ := parse_eq_ok_iff.1 h
  have hr := parse_compact_toJson h hf
  have hp : Bundle.parse bundle.render other = .ok bundle :=
    parse_eq_ok_iff.2 ⟨_, hr, faithful.decode_encode hb⟩
  exact ⟨hp, by rw [hp]; rfl, value, _, hv, hr, faithful.keeps hb⟩

theorem Bundle.parse_render_annotated :
    Bundle.parse annotated.pretty "b.json" = .ok ofAnnotated ∧
      Json.FloatsReadBack annotated.pretty ∧
      Bundle.parse ofAnnotated.render "c.json" = .ok ofAnnotated ∧
      (Bundle.parse ofAnnotated.render "c.json").map Bundle.render = .ok ofAnnotated.render ∧
      ∃ value encoded, Json.parse annotated.pretty = .ok value ∧
        Json.parse ofAnnotated.render = .ok encoded ∧ Bundle.Keeps value encoded :=
  ⟨parse_annotated "b.json", floatsReadBack_annotated,
    parse_render (parse_annotated "b.json") floatsReadBack_annotated "c.json"⟩

end Findings
