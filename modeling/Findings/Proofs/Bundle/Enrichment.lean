import Findings.Bundle.Enrichment
import Findings.Proofs.Bundle.Decoding
import Findings.Proofs.FileSystem.Rewrite
import Findings.Proofs.Json.Parsed

/-!
# Enriching twice

Enrichment settles a bundle: what the first reading writes into the document is what every later
reading takes from it, whoever reads.

* `ofJson_withHash`: writing a hash into an entry changes the hash of the diagnostic only.
* `readEntry_cases`: an entry that was read is left out for good, or holds the hash of its finding.
* `readEntry_readEntry`, `readEntries_readEntries`: entries that were enriched are not changed by
  another reading, which finds every hash in them.
* `readPath_readPath`: a bundle that was read and enriched is read again with the same findings,
  and the file is left alone.
-/

namespace Findings

/-- The finding as it is read from a bundle that has its hash. -/
def Finding.settled (finding : Finding) : Finding :=
  { finding with hashOrigin := .source }

/-- Hashes that were derived have been written to the file. -/
def Reading.Persisted (reading : Reading) : Prop :=
  reading.isDirty = true → reading.replaced = true

/-! ## Writing a hash into an entry -/

namespace Json

variable {α : Type} {key other : String} {value : Json} {members : List (String × Json)}

theorem withDefault_set_of_ne (h : other ≠ key) (default : α) (decode : Json → Decoded α) :
    withDefault default decode other (Entries.set key value members) =
      withDefault default decode other members := by
  rw [withDefault, withDefault, Entries.get?_set_of_ne h]

theorem required_set_of_ne (h : other ≠ key) (decode : Json → Decoded α) :
    required decode other (Entries.set key value members) = required decode other members := by
  rw [required, required, Entries.get?_set_of_ne h]

theorem extras_set {keys : List String} (h : key ∈ keys) :
    extras keys (Entries.set key value members) = extras keys members := by
  have hk : (!keys.contains key) = false := by simp [h]
  have hf := Entries.filter_set (p := fun k => !keys.contains k) hk value members
  rw [extras, extras, hf]

/-- A key of a record may be set, whether or not it is there. -/
theorem no_repeats_set {keys : List String} (key : String) (value : Json)
    (h : ∀ k ∈ keys, (members.filter fun member => member.1 = k).length ≤ 1) :
    ∀ k ∈ keys,
      ((Entries.set key value members).filter fun member => member.1 = k).length ≤ 1 := by
  intro k hk
  by_cases he : k = key
  · subst he
    exact Entries.length_filter_key_set_le (h k hk) value
  · rw [Entries.filter_key_set_of_ne he]
    exact h k hk

end Json

/-- The hash that is written into an entry is the one that is read from it; all else that is read
from the entry stays. -/
theorem Diagnostic.ofJson_withHash {raw : Json} {diagnostic : Diagnostic}
    (h : Diagnostic.ofJson raw = .ok diagnostic) (hash : String) :
    Diagnostic.ofJson (Enricher.withHash hash raw) =
      .ok { diagnostic with identityHash := some hash } := by
  obtain ⟨members, rfl, hk, hl, hp, hc, -, hd, he⟩ := Diagnostic.ofJson_eq_ok_iff.1 h
  have hset := Json.decodeMembers_object (Json.no_repeats_set hashKey (.string hash) hk)
  have hhash : Json.optional Json.decodeString hashKey
      (Entries.set hashKey (.string hash) members) = .ok (some hash) := by
    rw [Json.optional, Json.withDefault, Entries.get?_set_self]
    rfl
  have hmem : hashKey ∈ keys := by decide
  have hlocation : "location" ≠ hashKey := by decide
  have hpath : "path" ≠ hashKey := by decide
  have hchecker : checkerKey ≠ hashKey := by decide
  have hdescription : "description" ≠ hashKey := by decide
  simp only [Json.optional, Json.listMember] at hp hc hd hhash
  simp only [ofJson, Enricher.withHash, hset, bind, Except.bind, Json.optional, Json.listMember,
    Json.required_set_of_ne hlocation, Json.withDefault_set_of_ne hpath,
    Json.withDefault_set_of_ne hchecker, Json.withDefault_set_of_ne hdescription,
    hl, hp, hc, hd, hhash, Json.extras_set hmem, he]

namespace Enricher

theorem withHash_within {P : Number → Prop} {depth : Nat} {raw : Json}
    (h : raw.Within P depth) (hash : String) : (withHash hash raw).Within P depth := by
  cases raw with
  | object members =>
    obtain ⟨depth, rfl⟩ : ∃ d, depth = d + 1 :=
      ⟨depth - 1, by have := Json.depth_object_pos members; have := h.depth_le; omega⟩
    exact h.set Diagnostic.hashKey (Json.within_leaf rfl rfl)
  | null | bool _ | number _ | string _ | array _ => exact h

theorem withHash_distinctKeys {raw : Json} (h : raw.DistinctKeys) (hash : String) :
    (withHash hash raw).DistinctKeys := by
  cases raw with
  | object members => exact h.set Diagnostic.hashKey (.string hash)
  | null | bool _ | number _ | string _ | array _ => exact h

/-! ## One entry -/

/-- The diagnostic of an entry that is not left out. -/
def usable? (files : FileTable) (raw : Json) : Option Diagnostic :=
  match Diagnostic.ofJson raw with
  | .error _ => none
  | .ok diagnostic => if (outside? files diagnostic).isNone then some diagnostic else none

/-- The finding of a diagnostic with an identity hash. -/
def findingOf (diagnostic : Diagnostic) (origin hash : String) (hashOrigin : HashOrigin) :
    Finding where
  checkerName := (Identity.checkerName diagnostic origin).1
  identityHash := hash
  hashOrigin
  location := diagnostic.location
  description := diagnostic.description
  path := diagnostic.path
  extra := diagnostic.extra

variable (enricher first second : Enricher) (fs fs₂ : FileSystem) {files : FileTable}
  (origin : String) (index : Nat) {raw : Json} {diagnostic : Diagnostic}
  (sources sources₂ : SourceCache)

theorem usable?_withHash (h : usable? files raw = some diagnostic) (hash : String) :
    usable? files (withHash hash raw) = some { diagnostic with identityHash := some hash } := by
  unfold usable? at h
  split at h
  · simp at h
  · rename_i d hd
    split at h
    · rename_i ho
      simp only [Option.some.injEq] at h
      subst h
      -- The files of a diagnostic do not depend on its hash.
      have hof : outside? files { d with identityHash := some hash } = outside? files d := rfl
      simp [usable?, Diagnostic.ofJson_withHash hd hash, hof, ho]
    · simp at h

/-- An entry that is left out is not changed. -/
theorem readEntry_of_unusable (h : usable? files raw = none) :
    (enricher.readEntry fs files origin index raw sources).1.raw = raw ∧
      (enricher.readEntry fs files origin index raw sources).1.finding = none := by
  unfold usable? at h
  split at h
  · rename_i e he
    simp [readEntry, he]
  · rename_i d hd
    split at h
    · simp at h
    · rename_i ho
      cases hb : outside? files d with
      | none => simp [hb] at ho
      | some bad => simp [readEntry, hd, hb]

theorem ofJson_of_usable (h : usable? files raw = some diagnostic) :
    Diagnostic.ofJson raw = .ok diagnostic ∧ outside? files diagnostic = none := by
  unfold usable? at h
  split at h
  · simp at h
  · split at h
    · simp_all
    · simp at h

/-- A hash in an entry is trusted, and the entry is not changed. -/
theorem readEntry_of_hash (h : usable? files raw = some diagnostic) {hash : String}
    (hh : Identity.nonempty? diagnostic.identityHash = some hash) :
    (enricher.readEntry fs files origin index raw sources).1.raw = raw ∧
      (enricher.readEntry fs files origin index raw sources).1.finding =
        some (findingOf diagnostic origin hash .source) := by
  obtain ⟨hd, ho⟩ := ofJson_of_usable h
  simp [readEntry, hd, ho, Identity.identityHash, hh, findingOf]

/-- A hash that is missing is derived, from whatever source text was found, and written into the
entry. -/
theorem readEntry_of_no_hash (h : usable? files raw = some diagnostic)
    (hh : Identity.nonempty? diagnostic.identityHash = none) :
    ∃ hash, (∃ source, hash = enricher.hasher diagnostic.path source
          (Identity.checkerName diagnostic origin).1) ∧
      (enricher.readEntry fs files origin index raw sources).1.raw = withHash hash raw ∧
      (enricher.readEntry fs files origin index raw sources).1.finding =
        some (findingOf diagnostic origin hash .derived) := by
  obtain ⟨hd, ho⟩ := ofJson_of_usable h
  simp only [readEntry, hd, ho, Identity.identityHash, hh, findingOf]
  exact ⟨_, ⟨_, rfl⟩, by simp, rfl⟩

/-- What is written into an entry: nothing, or the hash that was derived for its finding. -/
theorem raw_readEntry (files : FileTable) (raw : Json) :
    (enricher.readEntry fs files origin index raw sources).1.raw = raw ∨
      ∃ hash diagnostic,
        (enricher.readEntry fs files origin index raw sources).1.raw = withHash hash raw ∧
        (enricher.readEntry fs files origin index raw sources).1.finding =
          some (findingOf diagnostic origin hash .derived) := by
  cases hu : usable? files raw with
  | none => exact .inl (readEntry_of_unusable enricher fs origin index sources hu).1
  | some diagnostic =>
    cases hn : Identity.nonempty? diagnostic.identityHash with
    | some hash => exact .inl (readEntry_of_hash enricher fs origin index sources hu hn).1
    | none =>
      obtain ⟨hash, -, hr⟩ := readEntry_of_no_hash enricher fs origin index sources hu hn
      exact .inr ⟨hash, diagnostic, hr⟩

/-- An entry that needed no hash is not changed. -/
theorem raw_readEntry_of_source
    (h : ∀ finding ∈ (enricher.readEntry fs files origin index raw sources).1.finding,
      finding.hashOrigin ≠ .derived) :
    (enricher.readEntry fs files origin index raw sources).1.raw = raw := by
  obtain hr | ⟨hash, diagnostic, -, hf⟩ := raw_readEntry enricher fs origin index sources files raw
  · exact hr
  · exact absurd rfl (h _ hf)

/-- A hash is written into an entry if and only if that of its finding was derived. -/
theorem isEnriched_readEntry (files : FileTable) (raw : Json) :
    (enricher.readEntry fs files origin index raw sources).1.isEnriched =
      (enricher.readEntry fs files origin index raw sources).1.finding.any
        fun finding => finding.hashOrigin = .derived := by
  cases hd : Diagnostic.ofJson raw with
  | error e => simp [readEntry, hd]
  | ok diagnostic =>
    cases ho : outside? files diagnostic with
    | some bad => simp [readEntry, hd, ho]
    | none =>
      cases hn : Identity.nonempty? diagnostic.identityHash with
      | some hash => simp [readEntry, hd, ho, Identity.identityHash, hn]
      | none => simp [readEntry, hd, ho, Identity.identityHash, hn]

/-- An entry that was read is left out for good, or holds the hash of its finding. -/
theorem readEntry_cases (files : FileTable) (raw : Json)
    (hh : ∀ path source checker, enricher.hasher path source checker ≠ "") :
    let once := (enricher.readEntry fs files origin index raw sources).1
    usable? files once.raw = none ∧ once.finding = none ∨
      ∃ diagnostic hash hashOrigin, usable? files once.raw = some diagnostic ∧
        Identity.nonempty? diagnostic.identityHash = some hash ∧
        once.finding = some (findingOf diagnostic origin hash hashOrigin) := by
  intro once
  cases hu : usable? files raw with
  | none =>
    obtain ⟨hr, hf⟩ := readEntry_of_unusable enricher fs origin index sources hu
    exact .inl ⟨hr ▸ hu, hf⟩
  | some diagnostic =>
    cases hn : Identity.nonempty? diagnostic.identityHash with
    | some hash =>
      obtain ⟨hr, hf⟩ := readEntry_of_hash enricher fs origin index sources hu hn
      exact .inr ⟨diagnostic, hash, .source, hr ▸ hu, hn, hf⟩
    | none =>
      obtain ⟨hash, ⟨source, he⟩, hr, hf⟩ :=
        readEntry_of_no_hash enricher fs origin index sources hu hn
      have hne : hash ≠ "" := he ▸ hh diagnostic.path source _
      refine .inr ⟨{ diagnostic with identityHash := some hash }, hash, .derived,
        hr ▸ usable?_withHash hu hash, ?_, hf⟩
      simp [Identity.nonempty?, hne]

/-- An entry that was read is read again without a change, and gives the same finding. -/
theorem readEntry_readEntry (files : FileTable) (raw : Json)
    (hh : ∀ path source checker, first.hasher path source checker ≠ "") :
    let once := (first.readEntry fs files origin index raw sources).1
    let again := (second.readEntry fs₂ files origin index once.raw sources₂).1
    again.raw = once.raw ∧ again.finding = once.finding.map Finding.settled := by
  intro once again
  obtain ⟨hu, hf⟩ | ⟨diagnostic, hash, hashOrigin, hu, hn, hf⟩ :=
    readEntry_cases first fs origin index sources files raw hh
  · obtain ⟨hr₂, hf₂⟩ := readEntry_of_unusable second fs₂ origin index sources₂ hu
    exact ⟨hr₂, by rw [show again.finding = none from hf₂, show once.finding = none from hf]; rfl⟩
  · obtain ⟨hr₂, hf₂⟩ := readEntry_of_hash second fs₂ origin index sources₂ hu hn
    refine ⟨hr₂, hf₂.trans ?_⟩
    rw [show once.finding = _ from hf]
    rfl

/-! ## All entries -/

theorem readEntries_cons (raw : Json) (items : List Json) :
    (enricher.readEntries fs files origin index (raw :: items) sources).1 =
      (enricher.readEntry fs files origin index raw sources).1 ::
        (enricher.readEntries fs files origin (index + 1) items
          (enricher.readEntry fs files origin index raw sources).2).1 :=
  rfl

/-- Entries that were read are read again without a change, and give the same findings. -/
theorem readEntries_readEntries (files : FileTable)
    (hh : ∀ path source checker, first.hasher path source checker ≠ "") (items : List Json) :
    let once := (first.readEntries fs files origin index items sources).1
    let again := (second.readEntries fs₂ files origin index (once.map Entry.raw) sources₂).1
    again.map Entry.raw = once.map Entry.raw ∧
      again.filterMap Entry.finding = (once.filterMap Entry.finding).map Finding.settled := by
  induction items generalizing index sources sources₂ with
  | nil => exact ⟨rfl, rfl⟩
  | cons raw items ih =>
    intro once again
    obtain ⟨hr, hf⟩ :=
      readEntry_readEntry first second fs fs₂ origin index sources sources₂ files raw hh
    obtain ⟨hrs, hfs⟩ := ih (index + 1) (first.readEntry fs files origin index raw sources).2
      (second.readEntry fs₂ files origin index
        (first.readEntry fs files origin index raw sources).1.raw sources₂).2
    refine ⟨?_, ?_⟩
    · simp only [again, once, readEntries_cons, List.map_cons, hr, hrs]
    · simp only [again, once, readEntries_cons, List.map_cons, List.filterMap_cons, hf, hfs]
      cases (first.readEntry fs files origin index raw sources).1.finding <;> rfl

/-- A hash is written into some entry if and only if that of some finding was derived. -/
theorem any_isEnriched_readEntries (files : FileTable) (items : List Json) :
    (enricher.readEntries fs files origin index items sources).1.any Entry.isEnriched =
      ((enricher.readEntries fs files origin index items sources).1.filterMap Entry.finding).any
        fun finding => finding.hashOrigin = .derived := by
  induction items generalizing index sources with
  | nil => rfl
  | cons raw items ih =>
    rw [readEntries_cons, List.any_cons, isEnriched_readEntry, ih, List.filterMap_cons]
    cases (enricher.readEntry fs files origin index raw sources).1.finding <;> simp

/-- What holds of the entries of a bundle, whether or not a hash is written into them, holds of the
entries that were read. -/
theorem forall_raw_readEntries {P : Json → Prop} (hw : ∀ raw hash, P raw → P (withHash hash raw))
    {items : List Json} (h : ∀ raw ∈ items, P raw) :
    ∀ raw ∈ (enricher.readEntries fs files origin index items sources).1.map Entry.raw, P raw := by
  induction items generalizing index sources with
  | nil => simp [readEntries]
  | cons raw items ih =>
    rw [List.forall_mem_cons] at h
    rw [readEntries_cons, List.map_cons, List.forall_mem_cons]
    refine ⟨?_, ih _ _ h.2⟩
    obtain hr | ⟨hash, -, hr, -⟩ := raw_readEntry enricher fs origin index sources files raw
    · rw [hr]
      exact h.1
    · rw [hr]
      exact hw raw hash h.1

/-- Entries that all had a hash are not changed. -/
theorem raw_readEntries_of_source {items : List Json}
    (h : ∀ finding ∈ (enricher.readEntries fs files origin index items sources).1.filterMap
      Entry.finding, finding.hashOrigin ≠ .derived) :
    (enricher.readEntries fs files origin index items sources).1.map Entry.raw = items := by
  induction items generalizing index sources with
  | nil => rfl
  | cons raw items ih =>
    rw [readEntries_cons] at h ⊢
    rw [List.map_cons, ih]
    · rw [raw_readEntry_of_source]
      intro finding hf
      exact h finding (List.mem_filterMap.2 ⟨_, List.mem_cons_self, hf⟩)
    · intro finding hf
      obtain ⟨entry, he, hf⟩ := List.mem_filterMap.1 hf
      exact h finding (List.mem_filterMap.2 ⟨entry, List.mem_cons_of_mem _ he, hf⟩)

/-! ## The members of a bundle -/

/-- The members of a bundle cannot be read, or there is a file table and, if there are entries, a
list of them. -/
theorem readMembers_cases (members : List (String × Json)) :
    (∃ defect files,
        enricher.readMembers fs members origin sources = fail sources origin defect files) ∨
      ∃ value files, Entries.get? "files" members = some value ∧
        FileTable.ofJson value = .ok files ∧
        (Entries.get? "diagnostics" members = none ∨
          ∃ items, Entries.get? "diagnostics" members = some (.array items)) := by
  cases hv : Entries.get? "files" members with
  | none => exact .inl ⟨.missingFiles, {}, by simp only [readMembers, hv]⟩
  | some value =>
    cases hf : FileTable.ofJson value with
    | error e => exact .inl ⟨.invalidFiles e, {}, by simp only [readMembers, hv, hf]⟩
    | ok files =>
      cases hd : Entries.get? "diagnostics" members with
      | none => exact .inr ⟨value, files, rfl, hf, .inl rfl⟩
      | some list =>
        cases list with
        | array items => exact .inr ⟨value, files, rfl, hf, .inr ⟨items, rfl⟩⟩
        | null | bool _ | number _ | string _ | object _ =>
          exact .inl ⟨.diagnosticsNotAList, files, by simp only [readMembers, hv, hf, hd]⟩

variable {members : List (String × Json)}

/-- What it takes to read the members of a bundle without a failure. -/
theorem readMembers_of_failure_eq_none
    (h : (enricher.readMembers fs members origin sources).reading.failure = none) :
    ∃ value files, Entries.get? "files" members = some value ∧
      FileTable.ofJson value = .ok files ∧
      (Entries.get? "diagnostics" members = none ∨
        ∃ items, Entries.get? "diagnostics" members = some (.array items)) := by
  obtain ⟨defect, files, hr⟩ | hr :=
    readMembers_cases enricher fs origin sources members
  · rw [hr] at h
    cases h
  · exact hr

theorem readMembers_of_array {value : Json} {items : List Json}
    (hv : Entries.get? "files" members = some value) (hf : FileTable.ofJson value = .ok files)
    (hd : Entries.get? "diagnostics" members = some (.array items)) :
    let entries := (enricher.readEntries fs files origin 0 items sources).1
    (enricher.readMembers fs members origin sources).reading =
        { files
          findings := entries.filterMap Entry.finding
          isDirty := entries.any Entry.isEnriched } ∧
      (enricher.readMembers fs members origin sources).document =
        some (.object (Entries.set "diagnostics" (.array (entries.map Entry.raw)) members)) := by
  simp only [readMembers, hv, hf, hd, and_self]

theorem readMembers_of_none {value : Json}
    (hv : Entries.get? "files" members = some value) (hf : FileTable.ofJson value = .ok files)
    (hd : Entries.get? "diagnostics" members = none) :
    (enricher.readMembers fs members origin sources).reading = { files } ∧
      (enricher.readMembers fs members origin sources).document = some (.object members) := by
  simp only [readMembers, hv, hf, hd, and_self]

theorem any_derived_settled (findings : List Finding) :
    (findings.map Finding.settled).any (fun finding => finding.hashOrigin = .derived) = false := by
  simp [Finding.settled]

/-- A bundle whose members were read gives a document, whose members are read again with the same
findings. -/
theorem readMembers_readMembers
    (hh : ∀ path source checker, first.hasher path source checker ≠ "")
    (h : (first.readMembers fs members origin sources).reading.failure = none) :
    ∃ enriched, (first.readMembers fs members origin sources).document = some (.object enriched) ∧
      (second.readMembers fs₂ enriched origin sources₂).reading =
        { files := (first.readMembers fs members origin sources).reading.files
          findings := (first.readMembers fs members origin sources).reading.findings.map
            Finding.settled } := by
  obtain ⟨value, files, hv, hf, hd | ⟨items, hd⟩⟩ :=
    readMembers_of_failure_eq_none first fs origin sources h
  · obtain ⟨hr, hdoc⟩ := readMembers_of_none first fs origin sources hv hf hd
    obtain ⟨hr₂, -⟩ := readMembers_of_none second fs₂ origin sources₂ hv hf hd
    exact ⟨members, hdoc, by rw [hr, hr₂]; rfl⟩
  · obtain ⟨hr, hdoc⟩ := readMembers_of_array first fs origin sources hv hf hd
    refine ⟨_, hdoc, ?_⟩
    have hne : "files" ≠ "diagnostics" := by decide
    obtain ⟨hr₂, -⟩ := readMembers_of_array second fs₂ origin sources₂
      ((Entries.get?_set_of_ne hne _ members).trans hv) hf (Entries.get?_set_self _ _ members)
    obtain ⟨-, hfs⟩ :=
      readEntries_readEntries first second fs fs₂ origin 0 sources sources₂ files hh items
    have hclean := any_isEnriched_readEntries second fs₂ origin 0 sources₂ files
      ((first.readEntries fs files origin 0 items sources).1.map Entry.raw)
    rw [hfs, any_derived_settled] at hclean
    rw [hr, hr₂, hfs, hclean]

/-- A hash was derived if and only if that of some finding was, and then there is a document to
write it to. -/
theorem isDirty_readMembers :
    let outcome := enricher.readMembers fs members origin sources
    outcome.reading.isDirty =
        outcome.reading.findings.any (fun finding => finding.hashOrigin = .derived) ∧
      (outcome.reading.isDirty = true → ∃ document, outcome.document = some document) := by
  obtain ⟨defect, files, hr⟩ | ⟨value, files, hv, hf, hd | ⟨items, hd⟩⟩ :=
    readMembers_cases enricher fs origin sources members
  · rw [hr]
    exact ⟨rfl, fun h => absurd h Bool.false_ne_true⟩
  · obtain ⟨hr, hdoc⟩ := readMembers_of_none enricher fs origin sources hv hf hd
    exact ⟨by rw [hr]; rfl, fun _ => ⟨_, hdoc⟩⟩
  · obtain ⟨hr, hdoc⟩ := readMembers_of_array enricher fs origin sources hv hf hd
    refine ⟨?_, fun _ => ⟨_, hdoc⟩⟩
    rw [hr]
    exact any_isEnriched_readEntries enricher fs origin 0 sources files items

/-- The document of a bundle that needed no hash is the one that was read. -/
theorem document_of_not_isDirty
    (h : (enricher.readMembers fs members origin sources).reading.failure = none)
    (hd : (enricher.readMembers fs members origin sources).reading.isDirty = false) :
    (enricher.readMembers fs members origin sources).document = some (.object members) := by
  obtain ⟨value, files, hv, hf, hn | ⟨items, ha⟩⟩ :=
    readMembers_of_failure_eq_none enricher fs origin sources h
  · exact (readMembers_of_none enricher fs origin sources hv hf hn).2
  · obtain ⟨hr, hdoc⟩ := readMembers_of_array enricher fs origin sources hv hf ha
    have hraw : (enricher.readEntries fs files origin 0 items sources).1.map Entry.raw = items := by
      refine raw_readEntries_of_source enricher fs origin 0 sources fun finding hfi hder => ?_
      rw [(isDirty_readMembers enricher fs origin sources).1, hr, List.any_eq_false] at hd
      exact hd finding hfi (decide_eq_true hder)
    rw [hdoc, hraw, Entries.set_of_get? ha]

/-- A document is nested no deeper than what was read, has no other numbers in it and repeats no
key if that does not. -/
theorem within_document {P : Number → Prop} {depth : Nat}
    (h : (enricher.readMembers fs members origin sources).reading.failure = none)
    (hw : (Json.object members).Within P depth) (hk : (Json.object members).DistinctKeys) :
    ∀ document ∈ (enricher.readMembers fs members origin sources).document,
      document.Within P depth ∧ document.DistinctKeys := by
  intro document hmem
  obtain ⟨value, files, hv, hf, hn | ⟨items, ha⟩⟩ :=
    readMembers_of_failure_eq_none enricher fs origin sources h
  · rw [(readMembers_of_none enricher fs origin sources hv hf hn).2] at hmem
    obtain rfl := Option.some.inj hmem
    exact ⟨hw, hk⟩
  · rw [(readMembers_of_array enricher fs origin sources hv hf ha).2] at hmem
    obtain rfl := Option.some.inj hmem
    refine ⟨hw.set_array ha fun d => ?_, hk.set_array ha ?_⟩
    · exact forall_raw_readEntries (P := fun raw => raw.Within P d) enricher fs origin 0 sources
        fun raw hash h => withHash_within h hash
    · exact forall_raw_readEntries (P := fun raw => raw.DistinctKeys) enricher fs origin 0 sources
        fun raw hash h => withHash_distinctKeys h hash

/-! ## The bundle at a path -/

variable {path : String}

/-- A text is read by way of the members of its top level. -/
theorem readDocument_of_parse {content : String} {value : Json}
    (hp : Json.parse content = .ok value) (hc : value.collapse = .object members) :
    enricher.readDocument fs content origin sources =
      enricher.readMembers fs members origin sources := by
  simp only [readDocument, hp, hc]

/-- A text cannot be read, or it is an object. -/
theorem readDocument_cases (content : String) :
    (∃ defect, enricher.readDocument fs content origin sources = fail sources origin defect) ∨
      ∃ value members, Json.parse content = .ok value ∧ value.collapse = .object members := by
  cases hp : Json.parse content with
  | error e => exact .inl ⟨.notJson e, by simp only [readDocument, hp]⟩
  | ok value =>
    cases hc : value.collapse with
    | object members => exact .inr ⟨value, members, rfl, hc⟩
    | null | bool _ | number _ | string _ | array _ =>
      exact .inl ⟨.notAnObject, by simp only [readDocument, hp, hc]⟩

theorem readDocument_of_failure_eq_none {content : String}
    (h : (enricher.readDocument fs content origin sources).reading.failure = none) :
    ∃ value members, Json.parse content = .ok value ∧ value.collapse = .object members := by
  obtain ⟨defect, hr⟩ | hr := readDocument_cases enricher fs origin sources content
  · rw [hr] at h
    cases h
  · exact hr

theorem isDirty_readDocument (content : String) :
    let outcome := enricher.readDocument fs content origin sources
    outcome.reading.isDirty =
        outcome.reading.findings.any (fun finding => finding.hashOrigin = .derived) ∧
      (outcome.reading.isDirty = true → ∃ document, outcome.document = some document) := by
  obtain ⟨defect, hr⟩ | ⟨value, members, hp, hc⟩ :=
    readDocument_cases enricher fs origin sources content
  · rw [hr]
    exact ⟨rfl, fun h => absurd h Bool.false_ne_true⟩
  · rw [readDocument_of_parse enricher fs origin sources hp hc]
    exact isDirty_readMembers enricher fs origin sources

/-- The text of an enriched document is read as that document. -/
theorem parse_document {content : String} {value document : Json}
    (h : (enricher.readDocument fs content origin sources).reading.failure = none)
    (hp : Json.parse content = .ok value)
    (hf : ∀ x, .float x ∈ value.collapse.numbers → (Number.float x).ReadsBack)
    (hdoc : (enricher.readDocument fs content origin sources).document = some document) :
    Json.parse document.pretty = .ok document ∧ document.collapse = document := by
  obtain ⟨value', members, hp', hc⟩ :=
    readDocument_of_failure_eq_none enricher fs origin sources h
  obtain rfl := Except.ok.inj (hp.symm.trans hp')
  rw [readDocument_of_parse enricher fs origin sources hp hc] at h hdoc
  have hw : (Json.object members).Within Number.ReadsBack Json.maxDepth :=
    hc ▸ Json.within_readsBack_collapse hp hf
  have hk : (Json.object members).DistinctKeys := hc ▸ Json.distinctKeys_collapse value
  obtain ⟨hwd, hkd⟩ := within_document enricher fs origin sources h hw hk document hdoc
  exact ⟨Json.parse_pretty hwd, Json.collapse_of_distinctKeys hkd⟩

/-- How reading the bundle at a path ends when its text was read: the file was to stay as it is; or
the enriched document was to replace it, and that failed or was done. -/
inductive PathEnds (fs : FileSystem) (path content : String) (sources : SourceCache) : Prop
  | kept
      (hn : ((enricher.readDocument fs content path sources).reading.isDirty &&
        enricher.mayReplace) = false)
      (he : enricher.readPath fs path sources =
        ((enricher.readDocument fs content path sources).reading,
          (enricher.readDocument fs content path sources).log,
          (enricher.readDocument fs content path sources).sources, fs))
  | failed {document : Json} {error : FileSystem.RewriteError Unit} {after : FileSystem}
      (hd : ((enricher.readDocument fs content path sources).reading.isDirty &&
        enricher.mayReplace) = true)
      (hdoc : (enricher.readDocument fs content path sources).document = some document)
      (hw : fs.rewrite path false (fun _ => (document.pretty, ())) = (.error error, after))
      (he : enricher.readPath fs path sources =
        ((enricher.readDocument fs content path sources).reading,
          (enricher.readDocument fs content path sources).log ++
            [.error (BundleError.io path error.error).message],
          (enricher.readDocument fs content path sources).sources, after))
  | replaced {document : Json} {after : FileSystem}
      (hd : ((enricher.readDocument fs content path sources).reading.isDirty &&
        enricher.mayReplace) = true)
      (hdoc : (enricher.readDocument fs content path sources).document = some document)
      (hw : fs.rewrite path false (fun _ => (document.pretty, ())) = (.ok (), after))
      (he : enricher.readPath fs path sources =
        ({ (enricher.readDocument fs content path sources).reading with replaced := true },
          (enricher.readDocument fs content path sources).log,
          (enricher.readDocument fs content path sources).sources, after))

theorem pathEnds {content : String} (h : fs.readText path = .ok content) :
    enricher.PathEnds fs path content sources := by
  cases hd : (enricher.readDocument fs content path sources).reading.isDirty &&
      enricher.mayReplace with
  | false =>
    refine .kept hd ?_
    simp only [readPath, h, hd, Bool.false_eq_true, if_false]
    split <;> rfl
  | true =>
    obtain ⟨document, hdoc⟩ := (isDirty_readDocument enricher fs path sources content).2
      (Bool.and_eq_true_iff.1 hd).1
    rcases hw : fs.rewrite path false (fun _ => (document.pretty, ())) with ⟨error | ⟨⟩, after⟩
    · exact .failed hd hdoc hw (by simp only [readPath, h, hdoc, hd, if_true, hw])
    · exact .replaced hd hdoc hw (by simp only [readPath, h, hdoc, hd, if_true, hw])

theorem replaced_readDocument (content : String) :
    (enricher.readDocument fs content origin sources).reading.replaced = false := by
  obtain ⟨defect, hr⟩ | ⟨value, members, hp, hc⟩ :=
    readDocument_cases enricher fs origin sources content
  · rw [hr]
    rfl
  · rw [readDocument_of_parse enricher fs origin sources hp hc]
    obtain ⟨defect, files, hr⟩ | ⟨value, files, hv, hf, hd | ⟨items, hd⟩⟩ :=
      readMembers_cases enricher fs origin sources members
    · rw [hr]
      rfl
    · rw [(readMembers_of_none enricher fs origin sources hv hf hd).1]
    · rw [(readMembers_of_array enricher fs origin sources hv hf hd).1]

/-- The reading that is returned is the one of the document, apart from whether it replaced the
file. -/
theorem readPath_of_readText {content : String} (h : fs.readText path = .ok content) :
    ∃ replaced, (enricher.readPath fs path sources).1 =
      { (enricher.readDocument fs content path sources).reading with replaced } := by
  cases pathEnds enricher fs sources h with
  | kept _ he => exact ⟨_, by rw [he]⟩
  | failed _ _ _ he => exact ⟨_, by rw [he]⟩
  | replaced _ _ _ he => exact ⟨true, by rw [he]⟩

theorem isDirty_readPath {content : String} (h : fs.readText path = .ok content) :
    (enricher.readPath fs path sources).1.isDirty =
      (enricher.readDocument fs content path sources).reading.isDirty := by
  obtain ⟨replaced, hread⟩ := readPath_of_readText enricher fs sources h
  rw [hread]

/-- A reading that derived no hash, or may not replace the file, leaves the files alone. -/
theorem readPath_of_kept {content : String} (h : fs.readText path = .ok content)
    (hn : ((enricher.readDocument fs content path sources).reading.isDirty &&
      enricher.mayReplace) = false) :
    (enricher.readPath fs path sources).1 =
        (enricher.readDocument fs content path sources).reading ∧
      (enricher.readPath fs path sources).2.2.2 = fs := by
  cases pathEnds enricher fs sources h with
  | kept _ he => rw [he]; exact ⟨rfl, rfl⟩
  | failed hd _ _ _ => cases hn.symm.trans hd
  | replaced hd _ _ _ => cases hn.symm.trans hd

theorem readPath_of_not_isDirty {content : String} (h : fs.readText path = .ok content)
    (hd : (enricher.readDocument fs content path sources).reading.isDirty = false) :
    (enricher.readPath fs path sources).1 =
        (enricher.readDocument fs content path sources).reading ∧
      (enricher.readPath fs path sources).2.2.2 = fs :=
  readPath_of_kept enricher fs sources h (by rw [hd, Bool.false_and])

/-- A reading that replaced the file has left a text of the document there. -/
theorem readText_readPath_of_replaced {content : String} {document : Json}
    (h : fs.readText path = .ok content)
    (hr : (enricher.readPath fs path sources).1.replaced = true)
    (hdoc : (enricher.readDocument fs content path sources).document = some document) :
    (enricher.readPath fs path sources).2.2.2.readText path = .ok document.pretty := by
  have hn := replaced_readDocument enricher fs path sources content
  cases pathEnds enricher fs sources h with
  | kept _ he =>
    rw [he] at hr
    cases hn.symm.trans hr
  | failed _ _ _ he =>
    rw [he] at hr
    cases hn.symm.trans hr
  | replaced _ hdoc' hw he =>
    obtain rfl := Option.some.inj (hdoc.symm.trans hdoc')
    obtain ⟨after, hedit, hread⟩ :=
      FileSystem.edit_of_readText h false fun _ => (document.pretty, ())
    cases hedit.symm.trans (FileSystem.edit_of_rewrite_eq_ok hw)
    rw [he]
    exact hread

/-- If the device accepts the bundle, a document that is to replace it does. -/
theorem replaced_readPath_of_accepts {content : String} (h : fs.readText path = .ok content)
    (ha : fs.Accepts path) :
    (enricher.readPath fs path sources).1.replaced =
      ((enricher.readDocument fs content path sources).reading.isDirty &&
        enricher.mayReplace) := by
  cases pathEnds enricher fs sources h with
  | kept hn he => rw [he, hn, replaced_readDocument]
  | failed _ _ hw _ =>
    obtain ⟨place, -, hok⟩ := ha.rewrite_of_readText h false _
    cases hw.symm.trans hok
  | replaced hd _ _ he => rw [he, hd]

/-- What a reading without failure leaves in the file, if it has written what it derived: a document
whose members any reader takes the same findings from, with their hashes. -/
theorem exists_settled (hh : ∀ path source checker, enricher.hasher path source checker ≠ "")
    (hf : ∀ content value, fs.readText path = .ok content → Json.parse content = .ok value →
      ∀ x, .float x ∈ value.collapse.numbers → (Number.float x).ReadsBack)
    (h : (enricher.readPath fs path sources).1.failure = none)
    (hw : (enricher.readPath fs path sources).1.Persisted) :
    ∃ content value members,
      (enricher.readPath fs path sources).2.2.2.readText path = .ok content ∧
      Json.parse content = .ok value ∧ value.collapse = .object members ∧
      ∀ (second : Enricher) fs₂ sources₂,
        (second.readMembers fs₂ members path sources₂).reading =
          { files := (enricher.readPath fs path sources).1.files
            findings := (enricher.readPath fs path sources).1.findings.map Finding.settled } := by
  cases ht : fs.readText path with
  | error e => simp [readPath, ht, Reading.failed] at h
  | ok content =>
    obtain ⟨replaced, hread⟩ := readPath_of_readText enricher fs sources ht
    rw [Reading.Persisted, isDirty_readPath enricher fs sources ht] at hw
    rw [hread] at h ⊢
    obtain ⟨value, members, hp, hc⟩ :=
      readDocument_of_failure_eq_none enricher fs path sources h
    have hdoc := readDocument_of_parse enricher fs path sources hp hc
    rw [hdoc] at h hw ⊢
    obtain ⟨enriched, he, -⟩ :=
      readMembers_readMembers enricher enricher fs fs path sources sources hh h
    have hagain (second : Enricher) (fs₂ : FileSystem) (sources₂ : SourceCache) :
        (second.readMembers fs₂ enriched path sources₂).reading =
          { files := (enricher.readMembers fs members path sources).reading.files
            findings := (enricher.readMembers fs members path sources).reading.findings.map
              Finding.settled } := by
      obtain ⟨enriched', he', hagain⟩ :=
        readMembers_readMembers enricher second fs fs₂ path sources sources₂ hh h
      obtain rfl := Json.object.inj (Option.some.inj (he.symm.trans he'))
      exact hagain
    cases hd : (enricher.readMembers fs members path sources).reading.isDirty with
    | false =>
      -- Nothing was written, and the members that were read are those of the document.
      rw [document_of_not_isDirty enricher fs path sources h hd] at he
      obtain rfl := Json.object.inj (Option.some.inj he)
      refine ⟨content, value, members, ?_, hp, hc, hagain⟩
      rw [(readPath_of_not_isDirty enricher fs sources ht (hdoc ▸ hd)).2, ht]
    | true =>
      obtain ⟨hpe, hce⟩ := parse_document enricher fs path sources (hdoc ▸ h) hp
        (hf content value ht hp) (hdoc ▸ he)
      exact ⟨_, _, enriched,
        readText_readPath_of_replaced enricher fs sources ht (hw hd) (hdoc ▸ he), hpe, hce, hagain⟩

/-- Enriching twice is enriching once. What a reading derives it writes to a file that the device
accepts; and if it has written it, whoever reads the bundle again, with whatever sources there are,
finds the same findings with their hashes in it and leaves the file alone. -/
theorem readPath_readPath (hh : ∀ path source checker, first.hasher path source checker ≠ "")
    (hr : first.mayReplace = true)
    (hf : ∀ content value, fs.readText path = .ok content → Json.parse content = .ok value →
      ∀ x, .float x ∈ value.collapse.numbers → (Number.float x).ReadsBack)
    (h : (first.readPath fs path sources).1.failure = none) :
    let once := (first.readPath fs path sources).1
    let after := (first.readPath fs path sources).2.2.2
    (fs.Accepts path → once.Persisted) ∧
      (once.Persisted → ∀ (second : Enricher) fs₂ sources₂,
        fs₂.readText path = after.readText path →
        let again := (second.readPath fs₂ path sources₂).1
        again.failure = none ∧ again.isDirty = false ∧ again.replaced = false ∧
          (second.readPath fs₂ path sources₂).2.2.2 = fs₂ ∧ again.files = once.files ∧
          again.findings =
            once.findings.map fun finding => { finding with hashOrigin := .source }) := by
  intro once after
  constructor
  · intro ha hdirty
    cases ht : fs.readText path with
    | error e => simp [readPath, ht, Reading.failed] at h
    | ok content =>
      have hd := (isDirty_readPath first fs sources ht).symm.trans hdirty
      rw [show once.replaced = _ from replaced_readPath_of_accepts first fs sources ht ha, hd, hr]
      rfl
  · intro hw second fs₂ sources₂ hfs again
    obtain ⟨content, value, members, ht, hp, hc, hagain⟩ :=
      exists_settled first fs sources hh hf h hw
    have hread : (second.readDocument fs₂ content path sources₂).reading =
        { files := once.files, findings := once.findings.map Finding.settled } := by
      rw [readDocument_of_parse second fs₂ path sources₂ hp hc, hagain]
    obtain ⟨he, hsame⟩ :=
      readPath_of_not_isDirty second fs₂ sources₂ (hfs.trans ht) (by rw [hread])
    have he : again = { files := once.files, findings := once.findings.map Finding.settled } :=
      he.trans hread
    exact ⟨by rw [he], by rw [he], by rw [he], hsame, by rw [he], by rw [he]; rfl⟩

/-- A finding that has no hash, and that has a number of its own that is not whole. -/
def weightedEntry : Json :=
  .object [
    ("location", .object [("line", .ofNat 3), ("col", .ofNat 7), ("file", .ofNat 0)]),
    ("weight", .number (.float ⟨false, ⟨2 ^ 52, 1021⟩⟩))]

/-- A bundle with that finding. -/
def weighted : Json :=
  .object [("files", .array [.string "a.c"]), ("diagnostics", .array [weightedEntry])]

theorem within_weighted : weighted.Within Number.ReadsBack Json.maxDepth where
  depth_le := by decide
  numbers n hn := by
    have hn : n ∈ [.int 3, .int 7, .int 0, Number.float ⟨false, ⟨2 ^ 52, 1021⟩⟩] := hn
    simp only [List.mem_cons, List.not_mem_nil, or_false] at hn
    rcases hn with rfl | rfl | rfl | rfl
    · exact Number.readsBack_int (by simp [Number.InRange])
    · exact Number.readsBack_int (by simp [Number.InRange])
    · exact Number.readsBack_int (by simp [Number.InRange])
    · have hr : (Number.read (Number.text (.float ⟨false, ⟨2 ^ 52, 1021⟩⟩))).toOption =
          some (.float ⟨false, ⟨2 ^ 52, 1021⟩⟩, []) := by decide +kernel
      unfold Number.ReadsBack
      revert hr
      cases Number.read (Number.text (.float ⟨false, ⟨2 ^ 52, 1021⟩⟩)) <;> simp [Except.toOption]

/-- Only a bundle, in the root directory. -/
def weightedFiles : FileSystem :=
  (FileSystem.empty []).put ["bundle.json"] (.file weighted.pretty.toUTF8)

theorem readText_weightedFiles : weightedFiles.readText "bundle.json" = .ok weighted.pretty :=
  FileSystem.readText_alone (by rfl) weighted.pretty

theorem accepts_weightedFiles : weightedFiles.Accepts "bundle.json" :=
  FileSystem.accepts_of_device rfl "bundle.json"

theorem readPath_readPath_weighted :
    let once := (Enricher.readPath {} weightedFiles "bundle.json" .empty).1
    let fs := (Enricher.readPath {} weightedFiles "bundle.json" .empty).2.2.2
    let again := (Enricher.readPath { hasher := fun _ _ _ => "" } fs "bundle.json" .empty).1
    once.Persisted ∧ again.failure = none ∧ again.isDirty = false ∧ again.replaced = false ∧
      (Enricher.readPath { hasher := fun _ _ _ => "" } fs "bundle.json" .empty).2.2.2 = fs ∧
      again.files = once.files ∧
      again.findings = once.findings.map fun finding => { finding with hashOrigin := .source } := by
  have hp := Json.parse_pretty within_weighted
  have hf : ∀ content value, weightedFiles.readText "bundle.json" = .ok content →
      Json.parse content = .ok value →
        ∀ x, .float x ∈ value.collapse.numbers → (Number.float x).ReadsBack := by
    intro content value ht hv x hx
    obtain rfl := Except.ok.inj (readText_weightedFiles.symm.trans ht)
    obtain rfl := Except.ok.inj (hp.symm.trans hv)
    exact within_weighted.collapse.numbers _ hx
  have hn : (Enricher.readPath {} weightedFiles "bundle.json" .empty).1.failure = none := by
    obtain ⟨replaced, hr⟩ := readPath_of_readText {} weightedFiles .empty readText_weightedFiles
    have hc : weighted.collapse = weighted := rfl
    have hd : Entries.get? "diagnostics"
        [("files", Json.array [.string "a.c"]), ("diagnostics", Json.array [weightedEntry])] =
          some (.array [weightedEntry]) := rfl
    have hm := readMembers_of_array {} weightedFiles "bundle.json" .empty rfl rfl hd
    rw [hr, readDocument_of_parse {} weightedFiles _ .empty hp hc, hm.1]
  obtain ⟨hwrites, hagain⟩ :=
    readPath_readPath {} weightedFiles .empty Identity.pathShape_ne_empty rfl hf hn
  have hw := hwrites accepts_weightedFiles
  exact ⟨hw, hagain hw _ _ .empty rfl⟩

end Enricher

end Findings
