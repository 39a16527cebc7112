import Findings.Bundle.Basic
import Findings.Proofs.Json.Decode
import Findings.Proofs.Json.Parsed

/-!
# Decoding the records of a bundle

What it takes to read each record from the members of an object, said once for each: a location, an
edge, a step, a diagnostic and a bundle (`Decodes`, `ofJson_eq_ok_iff`). All later facts about
decoding are read off it.

* `Bundle.ofJson_collapse`: a bundle that decodes is decoded from the collapsed document too, in
  which every key has its last value.
-/

namespace Findings

variable {raw : Json} {members : List (String × Json)}

/-! ## Locations -/

/-- What it takes to read a location from the members of an object. -/
structure Location.Decodes (members : List (String × Json)) (location : Location) : Prop where
  no_repeats : ∀ k ∈ Location.keys, (members.filter fun member => member.1 = k).length ≤ 1
  line : Json.required Json.decodeUInt32 "line" members = .ok location.line
  col : Json.required Json.decodeUInt32 "col" members = .ok location.col
  file : Json.required Json.decodeUInt64 "file" members = .ok location.file
  extra : location.extra = Json.extras Location.keys members

theorem Location.ofJson_eq_ok_iff {location : Location} :
    Location.ofJson raw = .ok location ↔ ∃ members, raw = .object members ∧
      location.Decodes members := by
  constructor
  · intro h
    obtain ⟨members, hm, hr⟩ := bind_eq_ok_iff.1 h
    obtain ⟨rfl, hk⟩ := Json.decodeMembers_eq_ok hm
    obtain ⟨line, hl, h⟩ := bind_eq_ok_iff.1 hr
    obtain ⟨col, hc, h⟩ := bind_eq_ok_iff.1 h
    obtain ⟨file, hf, h⟩ := bind_eq_ok_iff.1 h
    obtain rfl := Except.ok.inj h
    exact ⟨members, rfl, hk, hl, hc, hf, rfl⟩
  · rintro ⟨members, rfl, hk, hl, hc, hf, he⟩
    simp only [ofJson, Json.decodeMembers_object hk, hl, hc, hf, ← he, bind, Except.bind]

theorem Location.ignoresRepeats_ofJson : Json.IgnoresRepeats Location.ofJson := by
  intro value location h
  obtain ⟨members, rfl, hk, hl, hc, hf, he⟩ := ofJson_eq_ok_iff.1 h
  refine ofJson_eq_ok_iff.2 ⟨_, Json.collapse_object_eq members,
    fun k _ => Json.filter_collapsed_length_le k members, ?_, ?_, ?_, ?_⟩
  · exact Json.ignoresRepeats_decodeUInt32.required (hk _ (by decide)) hl
  · exact Json.ignoresRepeats_decodeUInt32.required (hk _ (by decide)) hc
  · exact Json.ignoresRepeats_decodeUInt64.required (hk _ (by decide)) hf
  · rw [he, Json.extras_collapsed]

/-! ## Edges -/

/-- What it takes to read an edge from the members of an object. -/
structure Edge.Decodes (members : List (String × Json)) (edge : Edge) : Prop where
  no_repeats : ∀ k ∈ Edge.keys, (members.filter fun member => member.1 = k).length ≤ 1
  start : Json.listMember Location.ofJson "start" members = .ok edge.start
  stop : Json.listMember Location.ofJson "end" members = .ok edge.stop
  extra : edge.extra = Json.extras Edge.keys members

theorem Edge.ofJson_eq_ok_iff {edge : Edge} :
    Edge.ofJson raw = .ok edge ↔ ∃ members, raw = .object members ∧ edge.Decodes members := by
  constructor
  · intro h
    obtain ⟨members, hm, hr⟩ := bind_eq_ok_iff.1 h
    obtain ⟨rfl, hk⟩ := Json.decodeMembers_eq_ok hm
    obtain ⟨start, hs, h⟩ := bind_eq_ok_iff.1 hr
    obtain ⟨stop, ht, h⟩ := bind_eq_ok_iff.1 h
    obtain rfl := Except.ok.inj h
    exact ⟨members, rfl, hk, hs, ht, rfl⟩
  · rintro ⟨members, rfl, hk, hs, ht, he⟩
    simp only [ofJson, Json.decodeMembers_object hk, hs, ht, ← he, bind, Except.bind]

theorem Edge.ignoresRepeats_ofJson : Json.IgnoresRepeats Edge.ofJson := by
  intro value edge h
  obtain ⟨members, rfl, hk, hs, ht, he⟩ := ofJson_eq_ok_iff.1 h
  have hlist := Location.ignoresRepeats_ofJson.decodeList
  refine ofJson_eq_ok_iff.2 ⟨_, Json.collapse_object_eq members,
    fun k _ => Json.filter_collapsed_length_le k members, ?_, ?_, ?_⟩
  · exact hlist.withDefault (hk _ (by decide)) hs
  · exact hlist.withDefault (hk _ (by decide)) ht
  · rw [he, Json.extras_collapsed]

/-! ## Steps -/

theorem StepKind.ignoresRepeats_ofJson : Json.IgnoresRepeats StepKind.ofJson := by
  intro value kind h
  obtain ⟨name, hn, rfl⟩ := map_eq_ok_iff.1 h
  exact map_eq_ok_iff.2 ⟨name, Json.ignoresRepeats_decodeString value name hn, rfl⟩

/-- What it takes to read a step from the members of an object. -/
structure Step.Decodes (members : List (String × Json)) (step : Step) : Prop where
  no_repeats : ∀ k ∈ Step.keys, (members.filter fun member => member.1 = k).length ≤ 1
  kind : Json.required StepKind.ofJson "kind" members = .ok step.kind
  location : Json.optional Location.ofJson "location" members = .ok step.location
  message : Json.optional Json.decodeString "message" members = .ok step.message
  ranges :
    Json.listMember (Json.decodeList Location.ofJson) "ranges" members = .ok step.ranges
  edges : Json.listMember Edge.ofJson "edges" members = .ok step.edges
  extra : step.extra = Json.extras Step.keys members

theorem Step.ofJson_eq_ok_iff {step : Step} :
    Step.ofJson raw = .ok step ↔ ∃ members, raw = .object members ∧ step.Decodes members := by
  constructor
  · intro h
    obtain ⟨members, hm, hr⟩ := bind_eq_ok_iff.1 h
    obtain ⟨rfl, hk⟩ := Json.decodeMembers_eq_ok hm
    obtain ⟨kind, hki, h⟩ := bind_eq_ok_iff.1 hr
    obtain ⟨location, hl, h⟩ := bind_eq_ok_iff.1 h
    obtain ⟨message, hme, h⟩ := bind_eq_ok_iff.1 h
    obtain ⟨ranges, hra, h⟩ := bind_eq_ok_iff.1 h
    obtain ⟨edges, hed, h⟩ := bind_eq_ok_iff.1 h
    obtain rfl := Except.ok.inj h
    exact ⟨members, rfl, hk, hki, hl, hme, hra, hed, rfl⟩
  · rintro ⟨members, rfl, hk, hki, hl, hme, hra, hed, he⟩
    simp only [ofJson, Json.decodeMembers_object hk, hki, hl, hme, hra, hed, ← he, bind,
      Except.bind]

theorem Step.ignoresRepeats_ofJson : Json.IgnoresRepeats Step.ofJson := by
  intro value step h
  obtain ⟨members, rfl, hk, hki, hl, hme, hra, hed, he⟩ := ofJson_eq_ok_iff.1 h
  refine ofJson_eq_ok_iff.2 ⟨_, Json.collapse_object_eq members,
    fun k _ => Json.filter_collapsed_length_le k members, ?_, ?_, ?_, ?_, ?_, ?_⟩
  · exact StepKind.ignoresRepeats_ofJson.required (hk _ (by decide)) hki
  · exact Location.ignoresRepeats_ofJson.optional (hk _ (by decide)) hl
  · exact Json.ignoresRepeats_decodeString.optional (hk _ (by decide)) hme
  · exact Location.ignoresRepeats_ofJson.decodeList.decodeList.withDefault (hk _ (by decide)) hra
  · exact Edge.ignoresRepeats_ofJson.decodeList.withDefault (hk _ (by decide)) hed
  · rw [he, Json.extras_collapsed]

/-! ## Diagnostics -/

/-- What it takes to read a diagnostic from the members of an entry. -/
structure Diagnostic.Decodes (members : List (String × Json)) (diagnostic : Diagnostic) : Prop where
  no_repeats : ∀ k ∈ Diagnostic.keys, (members.filter fun member => member.1 = k).length ≤ 1
  location : Json.required Location.ofJson "location" members = .ok diagnostic.location
  path : Json.listMember Step.ofJson "path" members = .ok diagnostic.path
  checkerName :
    Json.optional Json.decodeString Diagnostic.checkerKey members = .ok diagnostic.checkerName
  identityHash :
    Json.optional Json.decodeString Diagnostic.hashKey members = .ok diagnostic.identityHash
  description : Json.optional Json.decodeString "description" members = .ok diagnostic.description
  extra : diagnostic.extra = Json.extras Diagnostic.keys members

theorem Diagnostic.ofJson_eq_ok_iff {diagnostic : Diagnostic} :
    Diagnostic.ofJson raw = .ok diagnostic ↔ ∃ members, raw = .object members ∧
      diagnostic.Decodes members := by
  constructor
  · intro h
    obtain ⟨members, hm, hr⟩ := bind_eq_ok_iff.1 h
    obtain ⟨rfl, hk⟩ := Json.decodeMembers_eq_ok hm
    obtain ⟨location, hl, h⟩ := bind_eq_ok_iff.1 hr
    obtain ⟨path, hp, h⟩ := bind_eq_ok_iff.1 h
    obtain ⟨checker, hc, h⟩ := bind_eq_ok_iff.1 h
    obtain ⟨hash, hh, h⟩ := bind_eq_ok_iff.1 h
    obtain ⟨description, hd, h⟩ := bind_eq_ok_iff.1 h
    obtain rfl := Except.ok.inj h
    exact ⟨members, rfl, hk, hl, hp, hc, hh, hd, rfl⟩
  · rintro ⟨members, rfl, hk, hl, hp, hc, hh, hd, he⟩
    simp only [ofJson, Json.decodeMembers_object hk, hl, hp, hc, hh, hd, ← he, bind, Except.bind]

theorem Diagnostic.ignoresRepeats_ofJson : Json.IgnoresRepeats Diagnostic.ofJson := by
  intro value diagnostic h
  obtain ⟨members, rfl, hk, hl, hp, hc, hh, hd, he⟩ := ofJson_eq_ok_iff.1 h
  have htext := Json.ignoresRepeats_decodeString
  refine ofJson_eq_ok_iff.2 ⟨_, Json.collapse_object_eq members,
    fun k _ => Json.filter_collapsed_length_le k members, ?_, ?_, ?_, ?_, ?_, ?_⟩
  · exact Location.ignoresRepeats_ofJson.required (hk _ (by decide)) hl
  · exact Step.ignoresRepeats_ofJson.decodeList.withDefault (hk _ (by decide)) hp
  · exact htext.optional (hk _ (by decide)) hc
  · exact htext.optional (hk _ (by decide)) hh
  · exact htext.optional (hk _ (by decide)) hd
  · rw [he, Json.extras_collapsed]

/-! ## Bundles -/

theorem FileTable.ignoresRepeats_ofJson : Json.IgnoresRepeats FileTable.ofJson := by
  intro value files h
  obtain ⟨paths, hp, rfl⟩ := map_eq_ok_iff.1 h
  exact map_eq_ok_iff.2 ⟨paths, Json.ignoresRepeats_decodeString.decodeList value paths hp, rfl⟩

theorem FileTable.ofJson_eq_ok_iff {value : Json} {files : FileTable} :
    FileTable.ofJson value = .ok files ↔ value = files.toJson := by
  have hstring (item : Json) (path : String) :
      Json.decodeString item = .ok path ↔ item = .string path := by
    cases item <;> simp [Json.decodeString]
  unfold FileTable.ofJson
  simp only [map_eq_ok_iff, Json.decodeList_eq_ok_iff, hstring]
  constructor
  · rintro ⟨paths, ⟨items, rfl, hi⟩, rfl⟩
    rw [← List.forall₂_map_right_iff, List.forall₂_eq_eq_eq] at hi
    exact congrArg Json.array hi
  · rintro rfl
    refine ⟨files.paths, ⟨_, rfl, ?_⟩, rfl⟩
    exact List.forall₂_map_left_iff.2 (List.forall₂_same.2 fun _ _ => rfl)

/-- What it takes to read a bundle from the members of a document. -/
structure Bundle.Decodes (members : List (String × Json)) (bundle : Bundle) : Prop where
  no_repeats : ∀ k ∈ Bundle.keys, (members.filter fun member => member.1 = k).length ≤ 1
  files : Json.required FileTable.ofJson "files" members = .ok bundle.files
  diagnostics : Json.listMember Diagnostic.ofJson "diagnostics" members = .ok bundle.diagnostics
  extra : bundle.extra = Json.extras Bundle.keys members

theorem Bundle.ofJson_eq_ok_iff {bundle : Bundle} :
    Bundle.ofJson raw = .ok bundle ↔ ∃ members, raw = .object members ∧ bundle.Decodes members := by
  constructor
  · intro h
    obtain ⟨members, hm, hr⟩ := bind_eq_ok_iff.1 h
    obtain ⟨rfl, hk⟩ := Json.decodeMembers_eq_ok hm
    obtain ⟨files, hf, h⟩ := bind_eq_ok_iff.1 hr
    obtain ⟨diagnostics, hd, h⟩ := bind_eq_ok_iff.1 h
    obtain rfl := Except.ok.inj h
    exact ⟨members, rfl, hk, hf, hd, rfl⟩
  · rintro ⟨members, rfl, hk, hf, hd, he⟩
    simp only [ofJson, Json.decodeMembers_object hk, hf, hd, ← he, bind, Except.bind]

/-- A bundle that decodes is decoded from the collapsed document too. -/
theorem Bundle.ofJson_collapse {bundle : Bundle} (h : Bundle.ofJson raw = .ok bundle) :
    Bundle.ofJson raw.collapse = .ok bundle := by
  obtain ⟨members, rfl, hk, hf, hd, he⟩ := ofJson_eq_ok_iff.1 h
  refine ofJson_eq_ok_iff.2 ⟨_, Json.collapse_object_eq members,
    fun k _ => Json.filter_collapsed_length_le k members, ?_, ?_, ?_⟩
  · exact FileTable.ignoresRepeats_ofJson.required (hk _ (by decide)) hf
  · exact Diagnostic.ignoresRepeats_ofJson.decodeList.withDefault (hk _ (by decide)) hd
  · rw [he, Json.extras_collapsed]

/-- A text is read as a bundle if it is a document that decodes. -/
theorem Bundle.parse_eq_ok_iff {content origin : String} {bundle : Bundle} :
    Bundle.parse content origin = .ok bundle ↔
      ∃ value, Json.parse content = .ok value ∧ Bundle.ofJson value = .ok bundle := by
  unfold Bundle.parse
  cases Json.parse content with
  | error e => simp
  | ok value => cases hb : Bundle.ofJson value <;> simp [hb]

namespace Bundle

/-- A location with a key of its own, which it has twice. -/
def annotatedPlace (line file : Nat) : Json :=
  .object [("offset", .ofNat 1), ("line", .ofNat line), ("col", .ofNat 2), ("file", .ofNat file),
    ("offset", .ofNat 3)]

/-- A document with keys that no schema has, some of them twice, in records of every kind. Of its
diagnostics one refers to both files and has a hash, one is in the second file and has an empty
hash, and one is outside the table. -/
def annotated : Json :=
  .object [
    ("version", .ofNat 4),
    ("diagnostics", .array [
      .object [
        ("category", .string "old"),
        ("location", annotatedPlace 5 0),
        (Diagnostic.hashKey, .string "h"),
        ("description", .null),
        ("path", .array [
          .object [
            ("depth", .ofNat 6),
            ("kind", .string "control"),
            ("ranges", .array [.array [annotatedPlace 7 1], .array []]),
            ("edges", .array [
              .object [("weight", .ofNat 8), ("end", .array [annotatedPlace 9 0])]])],
          .object [("kind", .string "note"), ("location", .null), ("message", .string "m")]]),
        ("category", .object [("name", .string "a"), ("name", .string "b")])],
      .object [
        ("location", annotatedPlace 10 1), (Diagnostic.hashKey, .string ""),
        (Diagnostic.checkerKey, .string "k")],
      .object [("location", annotatedPlace 11 7)]]),
    ("files", .array [.string "a.c", .string "b.c"]),
    ("tool", .null)]

theorem parse_pretty_annotated : Json.parse annotated.pretty = .ok annotated :=
  Json.parse_pretty_of_numbers_eq
    [4, 1, 5, 2, 0, 3, 6, 1, 7, 2, 1, 3, 8, 1, 9, 2, 0, 3, 1, 10, 2, 1, 3, 1, 11, 2, 7, 3]
    (by decide) rfl (by decide)

theorem floatsReadBack_annotated : Json.FloatsReadBack annotated.pretty :=
  Json.floatsReadBack_pretty parse_pretty_annotated
    [4, 1, 5, 2, 0, 3, 6, 1, 7, 2, 1, 3, 8, 1, 9, 2, 0, 3, 1, 10, 2, 1, 3, 1, 11, 2, 7, 3] rfl

/-- The location that is read there. -/
def annotatedLocation (line : UInt32) (file : FileIndex) : Location where
  line
  col := 2
  file
  extra := [("offset", .ofNat 3)]

/-- The bundle that is read from the document. -/
def ofAnnotated : Bundle where
  files := ⟨["a.c", "b.c"]⟩
  diagnostics := [
    { location := annotatedLocation 5 0
      identityHash := some "h"
      path := [
        { kind := .control
          ranges := [[annotatedLocation 7 1], []]
          edges := [{ stop := [annotatedLocation 9 0], extra := [("weight", .ofNat 8)] }]
          extra := [("depth", .ofNat 6)] },
        { kind := .other "note", message := some "m" }]
      extra := [("category", .object [("name", .string "b")])] },
    { location := annotatedLocation 10 1, checkerName := some "k", identityHash := some "" },
    { location := annotatedLocation 11 7 }]
  extra := [("version", .ofNat 4), ("tool", .null)]

theorem parse_annotated (origin : String) :
    Bundle.parse annotated.pretty origin = .ok ofAnnotated :=
  parse_eq_ok_iff.2 ⟨annotated, parse_pretty_annotated, rfl⟩

end Bundle

end Findings
