import Findings.Proofs.Bundle.Accounting

/-!
# What enrichment leaves alone

Enrichment adds the hashes that it derived to their entries and changes nothing else: not another
key, not the order of keys or entries, not an entry that was left out. A file is written only if it
is the bundle and a hash was derived, and then it holds the enriched document, unless the device
does not let the document be written.

* `EntryEnriched`, `DocumentEnriched`: what may differ between a document and its enriched form.
* `documentEnriched_of_readDocument`: nothing else does.
* `readDocument_readPath_frame`: the same, with what reading the bundle at a path does to files.
-/

namespace Findings.Enricher

/-- What is done to an entry, given the finding that was read from it if there is one. -/
inductive EntryEnriched (raw : Json) : Option Finding → Json → Prop
  | leftOut : EntryEnriched raw none raw
  | trusted {finding : Finding} (ho : finding.hashOrigin = .source) :
      EntryEnriched raw (some finding) raw
  | derived {finding : Finding} {enriched : Json} (ho : finding.hashOrigin = .derived)
      (ha : HashAdded finding.identityHash raw enriched) :
      EntryEnriched raw (some finding) enriched

/-- What is done to a document, given what was found at the positions of its entries: only the
entries change, each at its place. -/
inductive DocumentEnriched : List (Option Finding) → Json → Json → Prop
  | withoutEntries {members : List (String × Json)}
      (h : "diagnostics" ∉ Entries.keys members) :
      DocumentEnriched [] (.object members) (.object members)
  | withEntries {before after : List (String × Json)} {found : List (Option Finding)}
      {items enriched : List Json} (hb : "diagnostics" ∉ Entries.keys before)
      (hf : found.length = items.length) (he : enriched.length = items.length)
      (hi : ∀ (i : Nat) raw finding entry, items[i]? = some raw → found[i]? = some finding →
        enriched[i]? = some entry → EntryEnriched raw finding entry) :
      DocumentEnriched found (.object (before ++ ("diagnostics", .array items) :: after))
        (.object (before ++ ("diagnostics", .array enriched) :: after))

theorem ReadsAs.entryEnriched {hasher : ContentHasher} {files : FileTable} {origin : String}
    {index : Nat} {raw : Json} {entry : Entry} (h : ReadsAs hasher files origin index raw entry) :
    EntryEnriched raw entry.finding entry.raw := by
  cases h with
  | leftOut => exact .leftOut
  | trusted => exact .trusted rfl
  | derived _ _ _ ha => exact .derived rfl ha

/-- The entries of a document are enriched where they stand. -/
theorem documentEnriched_set {hasher : ContentHasher} {files : FileTable} {origin : String}
    {members : List (String × Json)} {items : List Json} {entries : List Entry}
    (hd : Entries.get? "diagnostics" members = some (.array items))
    (h : List.Forall₂ (fun item entry => ReadsAs hasher files origin item.2 item.1 entry)
      items.zipIdx entries) :
    DocumentEnriched (entries.map Entry.finding) (.object members)
      (.object (Entries.set "diagnostics" (.array (entries.map Entry.raw)) members)) := by
  have hk : "diagnostics" ∈ Entries.keys members := by
    rw [← Entries.get?_isSome_iff, hd]
    rfl
  obtain ⟨before, old, after, hb, rfl⟩ := Entries.exists_append_of_mem_keys hk
  rw [Entries.get?_append_cons hb] at hd
  obtain rfl := Option.some.inj hd
  rw [Entries.set_append_cons hb]
  refine .withEntries hb ?_ ?_ ?_
  · rw [List.length_map, length_entries h]
  · rw [List.length_map, length_entries h]
  · intro i raw finding enriched hr hf he
    rw [List.getElem?_map, Option.map_eq_some_iff] at hf he
    obtain ⟨entry, hi, rfl⟩ := hf
    obtain ⟨_, hi', rfl⟩ := he
    obtain rfl := Option.some.inj (hi.symm.trans hi')
    exact (readsAs_of_getElem? h hr hi).entryEnriched

variable (enricher : Enricher) (fs : FileSystem) {path content : String} (sources : SourceCache)

/-- A reading without a failure enriches the document by the hashes that it derived, and by nothing
else. -/
theorem documentEnriched_of_readDocument
    (h : (enricher.readDocument fs content path sources).reading.failure = none) :
    let outcome := enricher.readDocument fs content path sources
    ∃ value found enriched, Json.parse content = .ok value ∧
      Accounts outcome.reading.files (entriesOf value.collapse) found outcome.log ∧
      outcome.reading.findings = found.filterMap id ∧ outcome.document = some enriched ∧
      DocumentEnriched found value.collapse enriched := by
  intro outcome
  obtain ⟨value, members, table, entries, hp, hc, -, -, hentries, hread, hlog, hdoc⟩ :=
    exists_entries enricher fs path sources h
  have hfindings : outcome.reading.findings = (entries.map Entry.finding).filterMap id := by
    rw [hread, List.filterMap_map, Function.id_comp]
  have haccounts := accounts hentries
  rw [← hlog] at haccounts
  obtain ⟨hn, hd⟩ | ⟨items, ha, hd⟩ := hdoc
  · refine ⟨value, _, _, hp, haccounts, hfindings, hd, ?_⟩
    have he : entries = [] := by
      rw [hc, entriesOf_of_none hn] at hentries
      cases hentries
      rfl
    rw [he, hc]
    refine .withoutEntries fun hk => ?_
    rw [← Entries.get?_isSome_iff, hn] at hk
    cases hk
  · refine ⟨value, _, _, hp, haccounts, hfindings, hd, ?_⟩
    rw [hc, entriesOf_of_array ha] at hentries
    rw [hc]
    exact documentEnriched_set ha hentries

/-! ## Files -/

/-- What becomes of the files when the bundle at a path, which is at `place` and has the text
`content`, is replaced by a document or is not. No other file changes. If it is replaced it holds a
text of the document. If it is not nothing has changed, unless a write failed: then part of the text
has been written over the old one. -/
structure Replaces (fs : FileSystem) (path : String) (place : Place) (content : String)
    (document : Json) (replaced : Bool) (after : FileSystem) : Prop where
  leads : fs.resolve path = .ok ⟨place, false⟩
  elsewhere : ∀ other, other ≠ place → after.node? other = fs.node? other
  written : replaced = true → after.node? place = some (.file document.pretty.toUTF8)
  unchanged : replaced = false → fs.Completes path → after = fs
  torn : replaced = false → after = fs ∨ ∃ bytes,
    after = fs.put place (.file (FileSystem.torn bytes content.toUTF8 document.pretty.toUTF8))

/-- Whatever the device does, the bundle is the only file that changes, and it is replaced if
that is reported. -/
theorem replaces_of_readText {document : Json} (ht : fs.readText path = .ok content)
    (hdoc : (enricher.readDocument fs content path sources).document = some document) :
    ∃ place, Replaces fs path place content document (enricher.readPath fs path sources).1.replaced
      (enricher.readPath fs path sources).2.2.2 := by
  have hn := replaced_readDocument enricher fs path sources content
  obtain ⟨place, hplace, hnode, hends⟩ :=
    FileSystem.rewrite_of_readText ht false fun _ => (document.pretty, ())
  have hne : place ≠ [] := by
    rintro rfl
    cases hnode
  have helsewhere (written : ByteArray) (other : Place) (ho : other ≠ place) :
      (fs.put place (.file written)).node? other = fs.node? other :=
    FileSystem.node?_put_of_ne fs _ ho
  refine ⟨place, ?_⟩
  cases pathEnds enricher fs sources ht with
  | kept _ he =>
    rw [he, hn]
    exact ⟨hplace, fun _ _ => rfl, fun h => absurd h Bool.false_ne_true, fun _ _ => rfl,
      fun _ => .inl rfl⟩
  | failed _ hdoc' hw he =>
    obtain rfl := Option.some.inj (hdoc.symm.trans hdoc')
    rw [he, hn]
    cases hends with
    | refused _ hrefused =>
      cases hw.symm.trans hrefused
      exact ⟨hplace, fun _ _ => rfl, fun h => absurd h Bool.false_ne_true, fun _ _ => rfl,
        fun _ => .inl rfl⟩
    | torn _ hf htorn =>
      cases hw.symm.trans htorn
      exact ⟨hplace, helsewhere _, fun h => absurd h Bool.false_ne_true,
        fun _ hc => absurd (hf.symm.trans (hc _ hplace _ _)) (Option.some_ne_none _),
        fun _ => .inr ⟨_, rfl⟩⟩
    | written _ _ hwritten => cases hw.symm.trans hwritten
  | replaced _ hdoc' hw he =>
    obtain rfl := Option.some.inj (hdoc.symm.trans hdoc')
    rw [he]
    cases hends with
    | refused _ hrefused => cases hw.symm.trans hrefused
    | torn _ _ htorn => cases hw.symm.trans htorn
    | written _ _ hwritten =>
      cases hw.symm.trans hwritten
      exact ⟨hplace, helsewhere _, fun _ => FileSystem.node?_put_self fs _ hne,
        fun h => absurd h.symm Bool.false_ne_true, fun h => absurd h.symm Bool.false_ne_true⟩

/-- Nothing is replaced that need not or may not be. -/
theorem isDirty_of_replaced (ht : fs.readText path = .ok content)
    (hr : (enricher.readPath fs path sources).1.replaced = true) :
    ((enricher.readDocument fs content path sources).reading.isDirty &&
      enricher.mayReplace) = true := by
  have hn := replaced_readDocument enricher fs path sources content
  cases pathEnds enricher fs sources ht with
  | kept _ he =>
    rw [he] at hr
    cases hn.symm.trans hr
  | failed hd _ _ _ => exact hd
  | replaced hd _ _ _ => exact hd

/-- A reading without a failure enriches the document by the hashes that it derived, and by nothing
else. If the document is that of a file, the file is replaced only if a hash was derived and it is
allowed, and then it is if the device accepts that; what it holds then is read as the enriched
document. No other file is touched, and this one is not either where nothing is replaced and no
write fails. -/
theorem readDocument_readPath_frame
    (h : (enricher.readDocument fs content path sources).reading.failure = none) :
    let outcome := enricher.readDocument fs content path sources
    let reading := (enricher.readPath fs path sources).1
    let after := (enricher.readPath fs path sources).2.2.2
    ∃ value found enriched, Json.parse content = .ok value ∧
      Accounts outcome.reading.files (entriesOf value.collapse) found outcome.log ∧
      outcome.reading.findings = found.filterMap id ∧
      outcome.document = some enriched ∧ DocumentEnriched found value.collapse enriched ∧
      (outcome.reading.isDirty = true ↔
        ∃ finding ∈ outcome.reading.findings, finding.hashOrigin = .derived) ∧
      (fs.readText path = .ok content →
        reading = { outcome.reading with replaced := reading.replaced } ∧
        (reading.replaced = true → (outcome.reading.isDirty && enricher.mayReplace) = true) ∧
        (fs.Accepts path →
          reading.replaced = (outcome.reading.isDirty && enricher.mayReplace)) ∧
        ((outcome.reading.isDirty && enricher.mayReplace) = false → after = fs) ∧
        ∃ place, Replaces fs path place content enriched reading.replaced after) ∧
      ((∀ x, .float x ∈ value.collapse.numbers → (Number.float x).ReadsBack) →
        Json.parse enriched.pretty = .ok enriched ∧ enriched.collapse = enriched) := by
  intro outcome reading after
  obtain ⟨value, found, enriched, hp, haccounts, hfindings, hdoc, hen⟩ :=
    documentEnriched_of_readDocument enricher fs sources h
  refine ⟨value, found, enriched, hp, haccounts, hfindings, hdoc, hen, ?_, fun ht =>
    ⟨?_, isDirty_of_replaced enricher fs sources ht,
      replaced_readPath_of_accepts enricher fs sources ht,
      fun hn => (readPath_of_kept enricher fs sources ht hn).2,
      replaces_of_readText enricher fs sources ht hdoc⟩,
    fun hf => parse_document enricher fs path sources h hp hf hdoc⟩
  · rw [(isDirty_readDocument enricher fs path sources content).1]
    simp [outcome]
  · obtain ⟨replaced, hread⟩ := readPath_of_readText enricher fs sources ht
    simp only [reading, hread, outcome]

/-- The bundle with a number that is not whole, whose finding has no hash. -/
theorem readDocument_readPath_frame_weighted :
    let outcome := Enricher.readDocument {} weightedFiles weighted.pretty "bundle.json" .empty
    let reading := (Enricher.readPath {} weightedFiles "bundle.json" .empty).1
    let after := (Enricher.readPath {} weightedFiles "bundle.json" .empty).2.2.2
    outcome.reading.failure = none ∧ weightedFiles.readText "bundle.json" = .ok weighted.pretty ∧
    reading.replaced = outcome.reading.isDirty ∧
    ∃ found enriched place, DocumentEnriched found weighted enriched ∧
      outcome.reading.findings = found.filterMap id ∧
      Replaces weightedFiles "bundle.json" place weighted.pretty enriched reading.replaced after ∧
      Json.parse enriched.pretty = .ok enriched := by
  have hp := Json.parse_pretty within_weighted
  have hc : weighted.collapse = weighted := rfl
  have hd : Entries.get? "diagnostics"
      [("files", Json.array [.string "a.c"]), ("diagnostics", Json.array [weightedEntry])] =
        some (.array [weightedEntry]) := rfl
  have hm := readMembers_of_array {} weightedFiles "bundle.json" .empty rfl rfl hd
  have hf : (Enricher.readDocument {} weightedFiles weighted.pretty "bundle.json"
      .empty).reading.failure = none := by
    rw [readDocument_of_parse {} weightedFiles _ .empty hp hc, hm.1]
  obtain ⟨value, found, enriched, hv, -, hfound, -, hen, -, hfiles, hback⟩ :=
    readDocument_readPath_frame {} weightedFiles .empty hf
  obtain rfl := Except.ok.inj (hp.symm.trans hv)
  obtain ⟨-, -, hreplaced, -, place, hreplaces⟩ := hfiles readText_weightedFiles
  have hdirty := (hreplaced accepts_weightedFiles).trans (Bool.and_true _)
  refine ⟨hf, readText_weightedFiles, hdirty, found, enriched, place, hen, hfound, hreplaces,
    (hback ?_).1⟩
  exact fun x hx => within_weighted.collapse.numbers _ hx

end Findings.Enricher
