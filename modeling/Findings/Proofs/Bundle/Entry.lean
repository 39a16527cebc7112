import Findings.Proofs.Bundle.Enrichment
import Findings.Proofs.Text
import Mathlib.Data.List.Forall2

/-!
# What becomes of one entry

The whole of what reading does to an entry of a bundle, said once: which entries are left out, what
is taken from the others, what is written into them, and what is reported.

* `Diagnostic.Resolves`, `outside?_eq_none_iff`: when every file of a diagnostic is in the table.
* `HashAdded`, `hashAdded_withHash`: where a hash is written into an entry.
* `ReadsAs`: the three ways to read an entry, with `readEntry_readsAs` for one entry and
  `readEntries_readsAs` for all of them.
* `exists_readEntries`, `exists_entries`: what a reading of a whole document consists of.
-/

namespace Findings

/-! ## References to files -/

/-- The file of a location is in the table. -/
def Location.Resolves (files : FileTable) (location : Location) : Prop :=
  location.file.toNat < files.size

/-- Every file that a diagnostic names is in the table: that of its own location, and those of its
steps, of their ranges and of both ends of their edges. -/
structure Diagnostic.Resolves (files : FileTable) (diagnostic : Diagnostic) : Prop where
  own : diagnostic.location.Resolves files
  steps : ∀ step ∈ diagnostic.path, ∀ location ∈ step.location, location.Resolves files
  ranges : ∀ step ∈ diagnostic.path, ∀ range ∈ step.ranges, ∀ location ∈ range,
    location.Resolves files
  edges : ∀ step ∈ diagnostic.path, ∀ edge ∈ step.edges, ∀ location,
    location ∈ edge.start ∨ location ∈ edge.stop → location.Resolves files

theorem Step.mem_locations {step : Step} {location : Location} :
    location ∈ step.locations ↔
      location ∈ step.location ∨ (∃ range ∈ step.ranges, location ∈ range) ∨
        ∃ edge ∈ step.edges, location ∈ edge.start ∨ location ∈ edge.stop := by
  simp only [locations, List.mem_append, Option.mem_toList, List.mem_flatten, List.mem_flatMap,
    or_assoc, Option.mem_def]

theorem Diagnostic.resolves_iff {files : FileTable} {diagnostic : Diagnostic} :
    diagnostic.Resolves files ↔ ∀ index ∈ diagnostic.files, index.toNat < files.size := by
  simp only [Diagnostic.files, List.forall_mem_cons, List.mem_flatMap, Step.files, List.mem_map]
  constructor
  · rintro ⟨own, steps, ranges, edges⟩
    refine ⟨own, ?_⟩
    rintro _ ⟨step, hs, location, hl, rfl⟩
    rcases Step.mem_locations.1 hl with hl | ⟨range, hr, hl⟩ | ⟨edge, he, hl⟩
    · exact steps step hs location hl
    · exact ranges step hs range hr location hl
    · exact edges step hs edge he location hl
  · rintro ⟨own, all⟩
    have step {step : Step} (hs : step ∈ diagnostic.path) {location : Location}
        (hl : location ∈ step.locations) : location.Resolves files :=
      all _ ⟨step, hs, location, hl, rfl⟩
    exact {
      own
      steps := fun _ hs _ hl => step hs (Step.mem_locations.2 (.inl hl))
      ranges := fun _ hs range hr _ hl =>
        step hs (Step.mem_locations.2 (.inr (.inl ⟨range, hr, hl⟩)))
      edges := fun _ hs edge he _ hl =>
        step hs (Step.mem_locations.2 (.inr (.inr ⟨edge, he, hl⟩))) }

namespace Enricher

theorem outside?_eq_none_iff {files : FileTable} {diagnostic : Diagnostic} :
    outside? files diagnostic = none ↔ diagnostic.Resolves files := by
  rw [Diagnostic.resolves_iff, outside?, List.find?_eq_none]
  refine forall₂_congr fun index _ => ?_
  rw [← FileTable.get?_isSome_iff]
  cases files.get? index <;> simp

theorem usable?_eq_some_iff {files : FileTable} {raw : Json} {diagnostic : Diagnostic} :
    usable? files raw = some diagnostic ↔
      Diagnostic.ofJson raw = .ok diagnostic ∧ diagnostic.Resolves files := by
  rw [← outside?_eq_none_iff]
  refine ⟨ofJson_of_usable, fun ⟨hd, ho⟩ => ?_⟩
  simp only [usable?, hd, ho, Option.isNone_none, if_true]

theorem usable?_eq_none_iff {files : FileTable} {raw : Json} :
    usable? files raw = none ↔
      ¬ ∃ diagnostic, Diagnostic.ofJson raw = .ok diagnostic ∧ diagnostic.Resolves files := by
  simp only [Option.eq_none_iff_forall_ne_some, ne_eq, usable?_eq_some_iff, not_exists]

/-! ## Writing a hash -/

/-- A hash is written into an entry that has none: over the value that stands for it, or at the
end if there is no such key. All other members stay where they are. -/
inductive HashAdded (hash : String) : Json → Json → Prop
  | filled {before after : List (String × Json)} {old : Json}
      (hb : Diagnostic.hashKey ∉ Entries.keys before) (ho : old = .null ∨ old = .string "") :
      HashAdded hash (.object (before ++ (Diagnostic.hashKey, old) :: after))
        (.object (before ++ (Diagnostic.hashKey, .string hash) :: after))
  | appended {members : List (String × Json)} (h : Diagnostic.hashKey ∉ Entries.keys members) :
      HashAdded hash (.object members) (.object (members ++ [(Diagnostic.hashKey, .string hash)]))

/-- What stands for a hash that is missing. -/
theorem eq_null_or_empty {members : List (String × Json)} {old : Json} {found : Option String}
    (h : Json.optional Json.decodeString Diagnostic.hashKey members = .ok found)
    (hg : Entries.get? Diagnostic.hashKey members = some old)
    (hn : Identity.nonempty? found = none) : old = .null ∨ old = .string "" := by
  simp only [Json.optional, Json.withDefault, hg] at h
  cases old with
  | null => exact .inl rfl
  | string s =>
    obtain rfl := Except.ok.inj h
    refine .inr (congrArg Json.string ?_)
    simpa [Identity.nonempty?] using hn
  | bool _ | number _ | array _ | object _ =>
    simp [Json.decodeOption, Json.decodeString, Except.map] at h

theorem hashAdded_withHash {raw : Json} {diagnostic : Diagnostic}
    (h : Diagnostic.ofJson raw = .ok diagnostic)
    (hn : Identity.nonempty? diagnostic.identityHash = none) (hash : String) :
    HashAdded hash raw (withHash hash raw) := by
  obtain ⟨members, rfl, decodes⟩ := Diagnostic.ofJson_eq_ok_iff.1 h
  by_cases hk : Diagnostic.hashKey ∈ Entries.keys members
  · obtain ⟨before, old, after, hb, rfl⟩ := Entries.exists_append_of_mem_keys hk
    have hg := Entries.get?_append_cons hb old after
    rw [withHash, Entries.set_append_cons hb]
    exact .filled hb (eq_null_or_empty decodes.identityHash hg hn)
  · rw [withHash, Entries.set_of_not_mem hk]
    exact .appended hk

/-! ## Reading an entry -/

/-- A warning that names the entry at a position as left out. -/
def skips (index : Nat) (entry : LogEntry) : Bool :=
  entry.level = .warn && s!"skipping diagnostic #{index} ".toList.isPrefixOf entry.message.toList

/-- How the entry at a position is read: it is left out with a warning if it does not decode or
names a file outside the table; the hash that it has is trusted; and the one that it lacks is
derived and written into it. -/
inductive ReadsAs (hasher : ContentHasher) (files : FileTable) (origin : String) (index : Nat)
    (raw : Json) : Entry → Prop
  | leftOut {warning : LogEntry} (hu : usable? files raw = none)
      (hw : ∀ i, skips i warning = decide (i = index)) :
      ReadsAs hasher files origin index raw { raw, log := [warning] }
  | trusted {diagnostic : Diagnostic} {hash : String} (hu : usable? files raw = some diagnostic)
      (hh : Identity.nonempty? diagnostic.identityHash = some hash) :
      ReadsAs hasher files origin index raw {
        raw
        finding := some (findingOf diagnostic origin hash .source)
        log := (Identity.checkerName diagnostic origin).2 }
  | derived {diagnostic : Diagnostic} (source : String) {enriched : Json}
      (hu : usable? files raw = some diagnostic)
      (hh : Identity.nonempty? diagnostic.identityHash = none)
      (ha : HashAdded
        (hasher diagnostic.path source (Identity.checkerName diagnostic origin).1) raw enriched) :
      ReadsAs hasher files origin index raw {
        raw := enriched
        finding := some (findingOf diagnostic origin
          (hasher diagnostic.path source (Identity.checkerName diagnostic origin).1) .derived)
        isEnriched := true
        log := (Identity.checkerName diagnostic origin).2 }

/-- A number that a blank follows is read off the text. -/
theorem eq_of_toDigits_append {i j : Nat} {s t : List Char}
    (h : Nat.toDigits 10 i ++ ' ' :: s = Nat.toDigits 10 j ++ ' ' :: t) : i = j := by
  have blank (n : Nat) : ' ' ∉ Nat.toDigits 10 n := by
    intro hm
    exact absurd (Nat.isDigit_of_mem_toDigits (by decide) (by decide) hm) (by decide)
  have hs := congrArg (Text.splitAt ' ') h
  rw [Text.splitAt_append (blank i), Text.splitAt_append (blank j)] at hs
  have hd := congrArg (Nat.ofDigitChars 10 · 0) (List.cons.inj hs).1
  simpa only [Nat.ofDigitChars_toDigits (b := 10) (by decide) (by decide)] using hd

/-- A warning names no other entry than the one it was made for. -/
theorem skips_warn {message rest : String} {index : Nat}
    (h : message = s!"skipping diagnostic #{index} in " ++ rest) (i : Nat) :
    skips i (.warn message) = decide (i = index) := by
  have hp : (s!"skipping diagnostic #{i} ").toList =
      "skipping diagnostic #".toList ++ (Nat.toDigits 10 i ++ [' ']) := by
    simp [toString]
  have hm : message.toList = "skipping diagnostic #".toList ++
      (Nat.toDigits 10 index ++ ' ' :: ("in " ++ rest).toList) := by
    simp [h, toString]
  rw [Bool.eq_iff_iff, decide_eq_true_iff, skips, LogEntry.warn]
  simp only [decide_true, Bool.true_and, List.isPrefixOf_iff_prefix, hp, hm,
    List.prefix_append_right_inj]
  constructor
  · rintro ⟨more, he⟩
    exact eq_of_toDigits_append (by simpa using he)
  · rintro rfl
    exact ⟨("in " ++ rest).toList, by simp⟩

theorem skips_checkerName (i : Nat) (diagnostic : Diagnostic) (origin : String) :
    ∀ entry ∈ (Identity.checkerName diagnostic origin).2, skips i entry = false := by
  intro entry h
  unfold Identity.checkerName at h
  split at h
  · simp at h
  · rw [List.mem_singleton] at h
    subst h
    simp only [skips, LogEntry.warn, String.toList_append, List.append_assoc, decide_true,
      Bool.true_and]
    rfl

variable (enricher : Enricher) (fs : FileSystem) {files : FileTable} (origin : String)
  (index : Nat) (sources : SourceCache)

theorem readEntry_readsAs (raw : Json) :
    ReadsAs enricher.hasher files origin index raw
      (enricher.readEntry fs files origin index raw sources).1 := by
  cases hd : Diagnostic.ofJson raw with
  | error e =>
    have hu : usable? files raw = none := by simp only [usable?, hd]
    simp only [readEntry, hd]
    exact .leftOut hu (skips_warn (by simp only [String.append_assoc]; rfl))
  | ok diagnostic =>
    cases ho : outside? files diagnostic with
    | some bad =>
      have hu : usable? files raw = none := by simp [usable?, hd, ho]
      simp only [readEntry, hd, ho]
      exact .leftOut hu (skips_warn (by simp only [String.append_assoc]; rfl))
    | none =>
      have hu : usable? files raw = some diagnostic := by simp [usable?, hd, ho]
      cases hn : Identity.nonempty? diagnostic.identityHash with
      | some hash =>
        simp only [readEntry, hd, ho, Identity.identityHash, hn]
        exact .trusted hu hn
      | none =>
        simp only [readEntry, hd, ho, Identity.identityHash, hn, if_true]
        exact .derived _ hu hn (hashAdded_withHash hd hn _)

/-- Every entry is read at its own position. -/
theorem readEntries_readsAs (items : List Json) :
    List.Forall₂ (fun item entry => ReadsAs enricher.hasher files origin item.2 item.1 entry)
      (items.zipIdx index) (enricher.readEntries fs files origin index items sources).1 := by
  induction items generalizing index sources with
  | nil => exact .nil
  | cons raw items ih =>
    rw [readEntries_cons, List.zipIdx_cons]
    exact .cons (readEntry_readsAs enricher fs origin index sources raw) (ih _ _)

/-! ## Reading a document -/

/-- The entries of a document. -/
def entriesOf (document : Json) : List Json :=
  match document.get? "diagnostics" with
  | some (.array items) => items
  | _ => []

theorem entriesOf_of_array {members : List (String × Json)} {items : List Json}
    (h : Entries.get? "diagnostics" members = some (.array items)) :
    entriesOf (.object members) = items := by
  simp only [entriesOf, Json.get?, h]

theorem entriesOf_of_none {members : List (String × Json)}
    (h : Entries.get? "diagnostics" members = none) : entriesOf (.object members) = [] := by
  simp only [entriesOf, Json.get?, h]

/-- What a reading without a failure consists of: the table, and what is read from the entries of
the document, which is left as it is but for its list of entries. -/
theorem exists_readEntries {content : String}
    (h : (enricher.readDocument fs content origin sources).reading.failure = none) :
    let outcome := enricher.readDocument fs content origin sources
    ∃ value members table, Json.parse content = .ok value ∧
      value.collapse = .object members ∧ Entries.get? "files" members = some table ∧
      FileTable.ofJson table = .ok outcome.reading.files ∧
      let entries := (enricher.readEntries fs outcome.reading.files origin 0
        (entriesOf value.collapse) sources).1
      outcome.reading = {
        files := outcome.reading.files
        findings := entries.filterMap Entry.finding
        isDirty := entries.any Entry.isEnriched } ∧
      outcome.log = entries.flatMap Entry.log ∧
      (Entries.get? "diagnostics" members = none ∧ outcome.document = some (.object members) ∨
        ∃ items, Entries.get? "diagnostics" members = some (.array items) ∧
          outcome.document = some (.object
            (Entries.set "diagnostics" (.array (entries.map Entry.raw)) members))) := by
  obtain ⟨value, members, hp, hc⟩ := readDocument_of_failure_eq_none enricher fs origin sources h
  have hread := readDocument_of_parse enricher fs origin sources hp hc
  rw [hread] at h ⊢
  obtain ⟨table, files, hv, hf, hd | ⟨items, hd⟩⟩ :=
    readMembers_of_failure_eq_none enricher fs origin sources h
  · have hm : enricher.readMembers fs members origin sources =
        { reading := { files }, document := some (.object members), sources } := by
      simp only [readMembers, hv, hf, hd]
    rw [hm]
    refine ⟨value, members, table, hp, hc, hv, hf, ?_⟩
    rw [hc, entriesOf_of_none hd]
    exact ⟨rfl, rfl, .inl ⟨hd, rfl⟩⟩
  · have hm : enricher.readMembers fs members origin sources =
        { reading := {
            files
            findings := (enricher.readEntries fs files origin 0 items sources).1.filterMap
              Entry.finding
            isDirty := (enricher.readEntries fs files origin 0 items sources).1.any
              Entry.isEnriched }
          document := some (.object (Entries.set "diagnostics" (.array
            ((enricher.readEntries fs files origin 0 items sources).1.map Entry.raw)) members))
          log := (enricher.readEntries fs files origin 0 items sources).1.flatMap Entry.log
          sources := (enricher.readEntries fs files origin 0 items sources).2 } := by
      simp only [readMembers, hv, hf, hd]
    rw [hm]
    refine ⟨value, members, table, hp, hc, hv, hf, ?_⟩
    rw [hc, entriesOf_of_array hd]
    exact ⟨rfl, rfl, .inr ⟨items, hd, rfl⟩⟩

/-- A reading without a failure has one entry read for each entry of the document. -/
theorem exists_entries {content : String}
    (h : (enricher.readDocument fs content origin sources).reading.failure = none) :
    let outcome := enricher.readDocument fs content origin sources
    ∃ value members table entries, Json.parse content = .ok value ∧
      value.collapse = .object members ∧ Entries.get? "files" members = some table ∧
      FileTable.ofJson table = .ok outcome.reading.files ∧
      List.Forall₂ (fun item entry =>
          ReadsAs enricher.hasher outcome.reading.files origin item.2 item.1 entry)
        (entriesOf value.collapse).zipIdx entries ∧
      outcome.reading = {
        files := outcome.reading.files
        findings := entries.filterMap Entry.finding
        isDirty := entries.any Entry.isEnriched } ∧
      outcome.log = entries.flatMap Entry.log ∧
      (Entries.get? "diagnostics" members = none ∧ outcome.document = some (.object members) ∨
        ∃ items, Entries.get? "diagnostics" members = some (.array items) ∧
          outcome.document = some (.object
            (Entries.set "diagnostics" (.array (entries.map Entry.raw)) members))) := by
  obtain ⟨value, members, table, hp, hc, hv, hf, hread⟩ :=
    exists_readEntries enricher fs origin sources h
  exact ⟨value, members, table, _, hp, hc, hv, hf,
    readEntries_readsAs enricher fs origin 0 sources _, hread⟩

end Enricher

end Findings
