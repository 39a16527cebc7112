import Findings.Proofs.Bundle.Entry

/-!
# Every entry is accounted for

No entry of a bundle gets lost: it gives a finding, or a warning names it. It gives a finding if and
only if it decodes and refers to files of the table only, so every file that a finding refers to is
in the table.

* `Accounts`: the findings, position by position, against the entries and the log.
* `readDocument_accounts`: a reading without a failure accounts for all entries.
-/

namespace Findings

namespace Enricher

/-- The findings at the positions of the entries that they were read from, with `none` where an
entry was left out, account for all entries and for the warnings in the log. -/
structure Accounts (files : FileTable) (items : List Json) (found : List (Option Finding))
    (log : Log) : Prop where
  length_eq : found.length = items.length
  yields_iff : ∀ (i : Nat) raw, items[i]? = some raw →
    ((∃ finding, found[i]? = some (some finding)) ↔
      ∃ diagnostic, Diagnostic.ofJson raw = .ok diagnostic ∧ diagnostic.Resolves files)
  decoded : ∀ (i : Nat) raw finding, items[i]? = some raw → found[i]? = some (some finding) →
    ∃ diagnostic, Diagnostic.ofJson raw = .ok diagnostic ∧ diagnostic.Resolves files ∧
      finding.location = diagnostic.location ∧ finding.path = diagnostic.path ∧
      finding.description = diagnostic.description ∧ finding.extra = diagnostic.extra
  warned_once : ∀ i : Nat, found[i]? = some none → log.countP (skips i) = 1
  not_warned : ∀ i : Nat, found[i]? ≠ some none → log.countP (skips i) = 0

variable {hasher : ContentHasher} {files : FileTable} {origin : String}

section ReadsAs

variable {index : Nat} {raw : Json} {entry : Entry}
  (h : ReadsAs hasher files origin index raw entry)
include h

theorem ReadsAs.isSome_finding_iff : (∃ finding, entry.finding = some finding) ↔
    ∃ diagnostic, Diagnostic.ofJson raw = .ok diagnostic ∧ diagnostic.Resolves files := by
  cases h with
  | leftOut hu => simpa using usable?_eq_none_iff.1 hu
  | trusted hu | derived _ hu => exact ⟨fun _ => ⟨_, usable?_eq_some_iff.1 hu⟩, fun _ => ⟨_, rfl⟩⟩

theorem ReadsAs.decoded {finding : Finding} (hf : entry.finding = some finding) :
    ∃ diagnostic, Diagnostic.ofJson raw = .ok diagnostic ∧ diagnostic.Resolves files ∧
      finding.location = diagnostic.location ∧ finding.path = diagnostic.path ∧
      finding.description = diagnostic.description ∧ finding.extra = diagnostic.extra := by
  cases h with
  | leftOut => cases hf
  | trusted hu | derived _ hu =>
    obtain rfl := Option.some.inj hf
    obtain ⟨hd, hr⟩ := usable?_eq_some_iff.1 hu
    exact ⟨_, hd, hr, rfl, rfl, rfl, rfl⟩

/-- Only an entry that is left out is warned of, and only under its own position. -/
theorem ReadsAs.countP_skips (i : Nat) :
    entry.log.countP (skips i) = if i = index ∧ entry.finding.isNone then 1 else 0 := by
  cases h with
  | leftOut _ hw => simp [hw]
  | trusted | derived => simpa using skips_checkerName i _ origin

end ReadsAs

/-- Entries read from a position on are warned of under their own positions. -/
theorem countP_skips {items : List Json} {index : Nat} {entries : List Entry}
    (h : List.Forall₂ (fun item entry => ReadsAs hasher files origin item.2 item.1 entry)
      (items.zipIdx index) entries) (i : Nat) :
    (entries.flatMap Entry.log).countP (skips i) =
      if index ≤ i ∧ (entries.map fun entry => entry.finding.isNone)[i - index]? = some true
        then 1 else 0 := by
  induction items generalizing index entries with
  | nil =>
    cases h
    simp
  | cons raw items ih =>
    rw [List.zipIdx_cons] at h
    cases h with
    | cons hd htl =>
      rw [List.flatMap_cons, List.countP_append, hd.countP_skips, ih htl]
      rcases Nat.lt_trichotomy i index with hi | rfl | hi
      · have hn : ¬ index ≤ i := by omega
        have hn' : ¬ index + 1 ≤ i := by omega
        simp [hn, hn', hi.ne]
      · have hn' : ¬ i + 1 ≤ i := by omega
        simp [hn']
      · obtain ⟨k, rfl⟩ : ∃ k, i = index + 1 + k := ⟨i - (index + 1), by omega⟩
        have hk : index + 1 + k - index = k + 1 := by omega
        have hne : index + 1 + k ≠ index := by omega
        simp [hk, hne, show index ≤ index + 1 + k by omega]

theorem checkerName_ne_empty (diagnostic : Diagnostic) (origin : String) :
    (Identity.checkerName diagnostic origin).1 ≠ "" := by
  unfold Identity.checkerName
  split
  · rename_i name hn
    exact of_decide_eq_true (Option.filter_eq_some_iff.1 hn).2
  · change Identity.unknownChecker ≠ ""
    decide

theorem ReadsAs.checkerName_ne_empty {index : Nat} {raw : Json} {entry : Entry}
    (h : ReadsAs hasher files origin index raw entry) {finding : Finding}
    (hf : entry.finding = some finding) : finding.checkerName ≠ "" := by
  cases h with
  | leftOut => cases hf
  | trusted | derived =>
    obtain rfl := Option.some.inj hf
    exact Enricher.checkerName_ne_empty _ origin

theorem ReadsAs.identityHash_ne_empty {index : Nat} {raw : Json} {entry : Entry}
    (h : ReadsAs hasher files origin index raw entry)
    (hh : ∀ path source checker, hasher path source checker ≠ "") {finding : Finding}
    (hf : entry.finding = some finding) : finding.identityHash ≠ "" := by
  cases h with
  | leftOut => cases hf
  | trusted _ hn =>
    obtain rfl := Option.some.inj hf
    exact of_decide_eq_true (Option.filter_eq_some_iff.1 hn).2
  | derived =>
    obtain rfl := Option.some.inj hf
    exact hh _ _ _

section Run

variable {items : List Json} {entries : List Entry}
  (h : List.Forall₂ (fun item entry => ReadsAs hasher files origin item.2 item.1 entry)
    items.zipIdx entries)
include h

theorem length_entries : entries.length = items.length := by
  simpa using h.length_eq.symm

theorem readsAs_of_getElem? {i : Nat} {raw : Json} {entry : Entry} (hr : items[i]? = some raw)
    (he : entries[i]? = some entry) : ReadsAs hasher files origin i raw entry := by
  obtain ⟨hi, rfl⟩ := List.getElem?_eq_some_iff.1 hr
  obtain ⟨hi', rfl⟩ := List.getElem?_eq_some_iff.1 he
  simpa using (List.forall₂_iff_get.1 h).2 i (by simpa using hi) hi'

theorem exists_readsAs_of_mem {entry : Entry} (he : entry ∈ entries) :
    ∃ i raw, ReadsAs hasher files origin i raw entry := by
  obtain ⟨i, hi⟩ := List.mem_iff_getElem?.1 he
  have hl : i < items.length := length_entries h ▸ (List.getElem?_eq_some_iff.1 hi).1
  exact ⟨i, items[i], readsAs_of_getElem? h (List.getElem?_eq_getElem hl) hi⟩

theorem accounts :
    Accounts files items (entries.map Entry.finding) (entries.flatMap Entry.log) where
  length_eq := by rw [List.length_map, length_entries h]
  yields_iff i raw hr := by
    have hl : i < entries.length := length_entries h ▸ (List.getElem?_eq_some_iff.1 hr).1
    have he := List.getElem?_eq_getElem hl
    simpa [he] using (readsAs_of_getElem? h hr he).isSome_finding_iff
  decoded i raw finding hr hf := by
    rw [List.getElem?_map, Option.map_eq_some_iff] at hf
    obtain ⟨entry, he, hf⟩ := hf
    exact (readsAs_of_getElem? h hr he).decoded hf
  warned_once i hi := by
    rw [List.getElem?_map, Option.map_eq_some_iff] at hi
    obtain ⟨entry, he, hf⟩ := hi
    simp [countP_skips h, he, hf]
  not_warned i hi := by
    rw [countP_skips h, if_neg]
    rintro ⟨-, hn⟩
    rw [Nat.sub_zero, List.getElem?_map, Option.map_eq_some_iff] at hn
    obtain ⟨entry, he, hn⟩ := hn
    exact hi (by rw [List.getElem?_map, he, Option.map_some, Option.isNone_iff_eq_none.1 hn])

end Run

variable (enricher : Enricher) (fs : FileSystem) (sources : SourceCache) {content : String}

/-- A reading without a failure accounts for every entry of the document, in order: an entry gives
a finding with what was decoded, or one warning names it. Every finding has a checker, and an
identity hash unless the hasher gives an empty one. -/
theorem readDocument_accounts
    (h : (enricher.readDocument fs content origin sources).reading.failure = none) :
    let outcome := enricher.readDocument fs content origin sources
    ∃ value found, Json.parse content = .ok value ∧
      (value.collapse.get? "files").map FileTable.ofJson = some (.ok outcome.reading.files) ∧
      Accounts outcome.reading.files (entriesOf value.collapse) found outcome.log ∧
      outcome.reading.findings = found.filterMap id ∧
      (∀ finding ∈ outcome.reading.findings, finding.checkerName ≠ "") ∧
      ((∀ path source checker, enricher.hasher path source checker ≠ "") →
        ∀ finding ∈ outcome.reading.findings, finding.identityHash ≠ "") := by
  intro outcome
  obtain ⟨value, members, table, entries, hp, hc, ht, hf, hentries, hread, hlog, -⟩ :=
    exists_entries enricher fs origin sources h
  have hfindings : outcome.reading.findings = entries.filterMap Entry.finding := by rw [hread]
  have hmem {finding : Finding} (hm : finding ∈ outcome.reading.findings) :
      ∃ i raw entry, ReadsAs enricher.hasher outcome.reading.files origin i raw entry ∧
        entry.finding = some finding := by
    rw [hfindings, List.mem_filterMap] at hm
    obtain ⟨entry, he, hfi⟩ := hm
    obtain ⟨i, raw, hr⟩ := exists_readsAs_of_mem hentries he
    exact ⟨i, raw, entry, hr, hfi⟩
  refine ⟨value, entries.map Entry.finding, hp, ?_, hlog ▸ accounts hentries, ?_, ?_, ?_⟩
  · rw [hc, Json.get?, ht, Option.map_some, hf]
  · rw [hfindings, List.filterMap_map, Function.id_comp]
  · intro finding hm
    obtain ⟨i, raw, entry, hr, hfi⟩ := hmem hm
    exact hr.checkerName_ne_empty hfi
  · intro hh finding hm
    obtain ⟨i, raw, entry, hr, hfi⟩ := hmem hm
    exact hr.identityHash_ne_empty hh hfi

/-- An entry that has neither a checker nor a hash. -/
def bareEntry : Json :=
  .object [("location", .object [("line", .ofNat 3), ("col", .ofNat 7), ("file", .ofNat 0)])]

/-- An entry with an edge that ends in a file outside the table. -/
def strayEntry : Json :=
  .object [
    ("location", .object [("line", .ofNat 1), ("col", .ofNat 1), ("file", .ofNat 0)]),
    ("path", .array [.object [
      ("kind", .string "control"),
      ("edges", .array [.object [
        ("end", .array [.object [("line", .ofNat 2), ("col", .ofNat 1), ("file", .ofNat 1)]])]])]])]

/-- A bundle of these, and of a value that is no entry at all. -/
def mixed : Json :=
  .object [
    ("files", .array [.string "a.c"]),
    ("diagnostics", .array [strayEntry, .null, bareEntry])]

theorem parse_mixed : Json.parse mixed.pretty = .ok mixed :=
  Json.parse_pretty_of_numbers_eq [1, 1, 0, 2, 1, 1, 3, 7, 0] (by decide) rfl (by decide)

theorem readDocument_accounts_mixed :
    let outcome := Enricher.readDocument {} (FileSystem.empty []) mixed.pretty "b.json" .empty
    outcome.reading.failure = none ∧
    ∃ value found, Json.parse mixed.pretty = .ok value ∧
      (value.collapse.get? "files").map FileTable.ofJson = some (.ok outcome.reading.files) ∧
      Accounts outcome.reading.files (entriesOf value.collapse) found outcome.log ∧
      outcome.reading.findings = found.filterMap id ∧
      (∀ finding ∈ outcome.reading.findings, finding.checkerName ≠ "") ∧
      ((∀ path source checker, Identity.pathShape path source checker ≠ "") →
        ∀ finding ∈ outcome.reading.findings, finding.identityHash ≠ "") := by
  have hf : (Enricher.readDocument {} (FileSystem.empty []) mixed.pretty "b.json"
      .empty).reading.failure = none := by
    have hc : mixed.collapse = mixed := rfl
    have hd : Entries.get? "diagnostics" [("files", Json.array [.string "a.c"]),
        ("diagnostics", Json.array [strayEntry, .null, bareEntry])] =
          some (.array [strayEntry, .null, bareEntry]) := rfl
    rw [readDocument_of_parse {} _ _ .empty parse_mixed hc,
      (readMembers_of_array {} _ "b.json" .empty rfl rfl hd).1]
  exact ⟨hf, readDocument_accounts {} (FileSystem.empty []) .empty hf⟩

end Enricher

end Findings
