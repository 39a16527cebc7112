import Findings.Bundle.Filter
import Findings.Proofs.Bundle.Accounting
import Findings.Proofs.Source.Cache

/-!
# Filtering and reading

Taking the entries of excluded files out of the text of a bundle and reading what is left gives the
same findings as reading the bundle and leaving out those of excluded files. Filtering judges raw
entries, which need not decode; an entry that decodes is judged by the file of its finding.

* `findingAt`: what is found in an entry where sources are a function of the path.
* `exists_lookup_readEntry`: reading an entry depends on one source at most.
* `keepsEntry_of_findingAt`: an entry with a finding stays iff the file of the finding does.
* `filterText_of_array`: the text of a filtered bundle.
* `parse_filterText`, `collapse_filterText`: the text of a filtered bundle is read as the filtered
  document. `exists_collapse_filterText`: so it is but for its floating point numbers, whatever they
  are read as.
* `readDocument_filterText`: filtering commutes with reading.
-/

namespace Findings

/-! ## The file of an entry -/

theorem Location.file_of_ofJson {value : Json} {location : Location}
    (h : Location.ofJson value = .ok location) :
    (value.get? "file").bind Json.toUInt64? = some location.file := by
  obtain ⟨members, hm, hr⟩ := bind_eq_ok_iff.1 h
  obtain ⟨rfl, -⟩ := Json.decodeMembers_eq_ok hm
  obtain ⟨line, -, h⟩ := bind_eq_ok_iff.1 hr
  obtain ⟨col, -, h⟩ := bind_eq_ok_iff.1 h
  obtain ⟨file, hf, h⟩ := bind_eq_ok_iff.1 h
  simp only [Except.ok.injEq] at h
  subst h
  obtain ⟨number, hn, hd⟩ := Json.required_eq_ok hf
  unfold Json.decodeUInt64 at hd
  split at hd
  · rename_i n hu
    obtain rfl := Except.ok.inj hd
    simp only [Json.get?, hn, Option.bind_some, hu]
  · cases hd

/-- An entry that decodes is judged by the file that is decoded. -/
theorem rawPrimaryFile?_of_ofJson {raw : Json} {diagnostic : Diagnostic}
    (h : Diagnostic.ofJson raw = .ok diagnostic) :
    rawPrimaryFile? raw = some diagnostic.primaryFile := by
  obtain ⟨members, rfl, decodes⟩ := Diagnostic.ofJson_eq_ok_iff.1 h
  obtain ⟨value, hv, hl⟩ := Json.required_eq_ok decodes.location
  have hf := Location.file_of_ofJson hl
  simp only [rawPrimaryFile?, Json.get?, hv, Option.bind_eq_bind, Option.bind_some]
  exact hf

namespace Enricher

/-- Where the sources of a file table are found. -/
def sourcePaths (enricher : Enricher) (files : FileTable) : List String :=
  files.paths.map enricher.resolve

/-! ## Reading with sources that are a function of the path -/

/-- The finding of an entry, if a source is what `lookup` has for its path. -/
def findingAt (enricher : Enricher) (lookup : String → Option SourceFile) (files : FileTable)
    (origin : String) (raw : Json) : Option Finding :=
  match usable? files raw with
  | none => none
  | some diagnostic =>
    match Identity.nonempty? diagnostic.identityHash with
    | some hash => some (findingOf diagnostic origin hash .source)
    | none =>
      let source := lookup (enricher.resolve ((files.get? diagnostic.primaryFile).getD ""))
      let hash := enricher.hasher diagnostic.path ((source.map SourceFile.content).getD "")
        (Identity.checkerName diagnostic origin).1
      some (findingOf diagnostic origin hash .derived)

variable (enricher : Enricher) (policy : SkipPolicy) {fs fs₂ : FileSystem} {files : FileTable}
  (origin : String) {sources sources₂ : SourceCache} {lookup : String → Option SourceFile}

theorem primaryFile_of_findingAt {raw : Json} {finding : Finding}
    (h : enricher.findingAt lookup files origin raw = some finding) :
    rawPrimaryFile? raw = some finding.primaryFile := by
  unfold findingAt at h
  split at h
  · cases h
  · rename_i diagnostic hu
    rw [rawPrimaryFile?_of_ofJson (ofJson_of_usable hu).1]
    split at h <;> (obtain rfl := Option.some.inj h; rfl)

/-- An entry with a finding stays iff the file of the finding is not excluded. -/
theorem keepsEntry_of_findingAt {raw : Json} {finding : Finding}
    (h : enricher.findingAt lookup files origin raw = some finding) :
    keepsEntry policy files raw = !policy.excludes files finding.primaryFile := by
  simp only [keepsEntry, primaryFile_of_findingAt enricher origin h]

/-- The entries that stay are those whose findings do. -/
theorem filterMap_findingAt (items : List Json) :
    (items.filter (keepsEntry policy files)).filterMap (enricher.findingAt lookup files origin) =
      (items.filterMap (enricher.findingAt lookup files origin)).filter
        fun finding => !policy.excludes files finding.primaryFile := by
  induction items with
  | nil => rfl
  | cons raw items ih =>
    cases hf : enricher.findingAt lookup files origin raw with
    | none =>
      by_cases hk : keepsEntry policy files raw = true
      · rw [List.filter_cons_of_pos hk, List.filterMap_cons_none hf,
          List.filterMap_cons_none hf, ih]
      · rw [List.filter_cons_of_neg hk, List.filterMap_cons_none hf, ih]
    | some finding =>
      have hkeep := keepsEntry_of_findingAt enricher policy origin hf
      by_cases hk : keepsEntry policy files raw = true
      · rw [List.filter_cons_of_pos hk, List.filterMap_cons_some hf, List.filterMap_cons_some hf,
          List.filter_cons_of_pos (hkeep ▸ hk), ih]
      · rw [List.filter_cons_of_neg hk, List.filterMap_cons_some hf,
          List.filter_cons_of_neg (hkeep ▸ hk), ih]

/-- The source of an entry that is not left out is that of a file in the table. -/
theorem resolve_mem {raw : Json} {diagnostic : Diagnostic}
    (h : usable? files raw = some diagnostic) :
    enricher.resolve ((files.get? diagnostic.primaryFile).getD "") ∈
      enricher.sourcePaths files := by
  have hlt : diagnostic.primaryFile.toNat < files.paths.length := (usable?_eq_some_iff.1 h).2.own
  rw [FileTable.get?, List.getElem?_eq_getElem hlt]
  exact List.mem_map_of_mem (List.getElem_mem hlt)

variable (fs files) in
/-- Reading an entry looks up one source at most, that of a file in the table, and the finding
depends on no other. -/
theorem exists_lookup_readEntry (index : Nat) (raw : Json) (sources : SourceCache) :
    ∃ path? : Option String, path?.toList ⊆ enricher.sourcePaths files ∧
      (enricher.readEntry fs files origin index raw sources).2 = sources.after fs path?.toList ∧
      ∀ lookup, (∀ path ∈ path?, (sources.file fs path).1 = lookup path) →
        (enricher.readEntry fs files origin index raw sources).1.finding =
          enricher.findingAt lookup files origin raw := by
  cases hu : usable? files raw with
  | none =>
    refine ⟨none, List.nil_subset _, ?_, fun lookup _ => ?_⟩
    · unfold readEntry
      unfold usable? at hu
      split
      · rfl
      · rename_i diagnostic hd
        cases ho : outside? files diagnostic with
        | some bad => rfl
        | none => simp [hd, ho] at hu
    · rw [(readEntry_of_unusable enricher fs origin index sources hu).2, findingAt, hu]
  | some diagnostic =>
    obtain ⟨hd, ho⟩ := ofJson_of_usable hu
    cases hn : Identity.nonempty? diagnostic.identityHash with
    | some hash =>
      refine ⟨none, List.nil_subset _, ?_, fun lookup _ => ?_⟩
      · simp only [readEntry, hd, ho, Identity.identityHash, hn]
        rfl
      · rw [(readEntry_of_hash enricher fs origin index sources hu hn).2]
        simp only [findingAt, hu, hn]
    | none =>
      refine ⟨some (enricher.resolve ((files.get? diagnostic.primaryFile).getD "")),
        List.cons_subset.2 ⟨resolve_mem enricher hu, List.nil_subset _⟩, ?_, fun lookup hl => ?_⟩
      · simp only [readEntry, hd, ho, Identity.identityHash, hn, SourceCache.content]
        rfl
      · have hfile := hl _ rfl
        simp only [readEntry, hd, ho, Identity.identityHash, hn, SourceCache.content, hfile,
          findingAt, hu]
        rfl

theorem readEntry_of_looksUp (index : Nat) (raw : Json)
    (hs : sources.LooksUp fs (enricher.sourcePaths files) lookup) :
    (enricher.readEntry fs files origin index raw sources).1.finding =
        enricher.findingAt lookup files origin raw ∧
      (enricher.readEntry fs files origin index raw sources).2.LooksUp fs
        (enricher.sourcePaths files) lookup := by
  obtain ⟨path?, hmem, hnext, hfinding⟩ :=
    exists_lookup_readEntry enricher fs files origin index raw sources
  rw [hnext]
  exact ⟨hfinding lookup fun path hp => hs.file (hmem (Option.mem_toList.2 hp)), hs.after hmem⟩

/-- Entries give findings each by itself, whatever was read before. -/
theorem readEntries_of_looksUp (index : Nat) (items : List Json)
    (hs : sources.LooksUp fs (enricher.sourcePaths files) lookup) :
    (enricher.readEntries fs files origin index items sources).1.filterMap Entry.finding =
      items.filterMap (enricher.findingAt lookup files origin) := by
  induction items generalizing index sources with
  | nil => rfl
  | cons raw items ih =>
    obtain ⟨hf, hs⟩ := readEntry_of_looksUp enricher origin index raw hs
    rw [readEntries_cons, List.filterMap_cons, List.filterMap_cons, hf, ih _ hs]

variable {content : String} {value table : Json} {members : List (String × Json)}
  {items : List Json}

/-- The reading of a document with entries. -/
theorem reading_of_looksUp (hp : Json.parse content = .ok value)
    (hc : value.collapse = .object members) (ht : Entries.get? "files" members = some table)
    (hf : FileTable.ofJson table = .ok files)
    (hd : Entries.get? "diagnostics" members = some (.array items))
    (hs : sources.LooksUp fs (enricher.sourcePaths files) lookup) :
    (enricher.readDocument fs content origin sources).reading = {
      files
      findings := items.filterMap (enricher.findingAt lookup files origin)
      isDirty := (items.filterMap (enricher.findingAt lookup files origin)).any
        fun finding => finding.hashOrigin = .derived } := by
  rw [readDocument_of_parse enricher fs origin sources hp hc,
    (readMembers_of_array enricher fs origin sources ht hf hd).1,
    any_isEnriched_readEntries, readEntries_of_looksUp enricher origin 0 items hs]

/-! ## The text of a filtered bundle -/

/-- Only a document that can be read is filtered. -/
theorem filterDocument_eq_ok_some {document filtered : Json}
    (h : filterDocument policy document = .ok (some filtered)) :
    ∃ members table files items, document = .object members ∧
      Entries.get? "files" members = some table ∧ FileTable.ofJson table = .ok files ∧
      Entries.get? "diagnostics" members = some (.array items) := by
  unfold filterDocument at h
  split at h
  · rename_i members
    split at h
    · cases h
    · rename_i table ht
      split at h
      · cases h
      · rename_i files hf
        split at h
        · cases h
        · rename_i items hd
          exact ⟨members, table, files, items, rfl, ht, hf, hd⟩
        · cases h
  · cases h

/-- A text that cannot be read as a bundle is not filtered. -/
theorem filterText_of_failure
    (h : (enricher.readDocument fs content origin sources).reading.failure ≠ none) :
    (filterText policy content).1 = content := by
  unfold filterText
  split
  · rfl
  · rename_i value hp
    split
    · rfl
    · rfl
    · rename_i document hd
      obtain ⟨members, table, files, items, hc, ht, hf, hi⟩ := filterDocument_eq_ok_some policy hd
      rw [readDocument_of_parse enricher fs origin sources hp hc,
        (readMembers_of_array enricher fs origin sources ht hf hi).1] at h
      exact absurd rfl h

theorem filterText_of_none (hp : Json.parse content = .ok value)
    (hc : value.collapse = .object members) (ht : Entries.get? "files" members = some table)
    (hf : FileTable.ofJson table = .ok files) (hd : Entries.get? "diagnostics" members = none) :
    (filterText policy content).1 = content := by
  simp only [filterText, hp, hc, filterDocument, ht, hf, hd]

/-- A document with entries is left alone if all of them stay, and printed anew if not. -/
theorem filterText_of_array (hp : Json.parse content = .ok value)
    (hc : value.collapse = .object members) (ht : Entries.get? "files" members = some table)
    (hf : FileTable.ofJson table = .ok files)
    (hd : Entries.get? "diagnostics" members = some (.array items)) :
    (filterText policy content).1 =
      if (items.filter (keepsEntry policy files)).length = items.length then content
      else (Json.object (Entries.set "diagnostics"
        (.array (items.filter (keepsEntry policy files))) members)).pretty := by
  by_cases hl : (items.filter (keepsEntry policy files)).length = items.length
  · simp only [filterText, hp, hc, filterDocument, ht, hf, hd, hl, if_true]
  · simp only [filterText, hp, hc, filterDocument, ht, hf, hd, hl, if_false]

/-- Either all entries stay and the text with them, or the text is printed anew without the others,
and the floating point numbers that are left are read from it. -/
theorem parse_filterText_reread (hp : Json.parse content = .ok value)
    (hc : value.collapse = .object members) (ht : Entries.get? "files" members = some table)
    (hf : FileTable.ofJson table = .ok files)
    (hd : Entries.get? "diagnostics" members = some (.array items)) :
    (filterText policy content).1 = content ∧ items.filter (keepsEntry policy files) = items ∨
      Json.parse (filterText policy content).1 = .ok (Json.object
        (Entries.set "diagnostics" (.array (items.filter (keepsEntry policy files)))
          members)).reread := by
  rw [filterText_of_array policy hp hc ht hf hd]
  by_cases hl : (items.filter (keepsEntry policy files)).length = items.length
  · exact .inl ⟨if_pos hl, List.filter_eq_self.2 (List.length_filter_eq_length_iff.1 hl)⟩
  · have hw : (Json.object members).Within Json.Rereads Json.maxDepth :=
      hc ▸ Json.within_rereads_collapse hp
    rw [if_neg hl]
    exact .inr (Json.parse_pretty_reread
      (hw.set_array hd fun _ h item hi => h item (List.mem_of_mem_filter hi)))

/-- The text of a filtered bundle is read as the document with the entries that stay, but for the
floating point numbers in it. -/
theorem exists_collapse_filterText (hp : Json.parse content = .ok value)
    (hc : value.collapse = .object members) (ht : Entries.get? "files" members = some table)
    (hf : FileTable.ofJson table = .ok files)
    (hd : Entries.get? "diagnostics" members = some (.array items)) :
    ∃ value φ, Json.parse (filterText policy content).1 = .ok value ∧
      (φ = id ∨ φ = Json.rereadFloat) ∧ value.collapse = .object (Json.mapFloatsMembers φ
        (Entries.set "diagnostics" (.array (items.filter (keepsEntry policy files))) members)) := by
  rcases parse_filterText_reread policy hp hc ht hf hd with ⟨htext, hall⟩ | hparse
  · refine ⟨value, id, by rw [htext, hp], .inl rfl, ?_⟩
    rw [hall, Entries.set_of_get? hd, hc, ← Json.mapFloats, Json.mapFloats_id]
  · have hk : (Json.object members).DistinctKeys := hc ▸ Json.distinctKeys_collapse value
    have hkf : (Json.object (Entries.set "diagnostics"
        (.array (items.filter (keepsEntry policy files))) members)).DistinctKeys :=
      hk.set_array hd fun h item hi => h item (List.mem_of_mem_filter hi)
    exact ⟨_, _, hparse, .inr rfl, Json.collapse_of_distinctKeys (hkf.mapFloats Json.rereadFloat)⟩

/-- What is read back in a document is read back in what stays of it. -/
theorem numbers_filter_keepsEntry (hp : Json.parse content = .ok value)
    (hc : value.collapse = .object members)
    (hd : Entries.get? "diagnostics" members = some (.array items))
    (hfloats : ∀ x, .float x ∈ value.collapse.numbers → (Number.float x).ReadsBack) :
    ∀ n ∈ (Json.object (Entries.set "diagnostics"
      (.array (items.filter (keepsEntry policy files))) members)).numbers, n.ReadsBack := by
  have hw : (Json.object members).Within Number.ReadsBack Json.maxDepth :=
    hc ▸ Json.within_readsBack_collapse hp hfloats
  exact (hw.set_array hd fun _ h item hi => h item (List.mem_of_mem_filter hi)).numbers

section ReadsBack

variable (hp : Json.parse content = .ok value) (hc : value.collapse = .object members)
  (ht : Entries.get? "files" members = some table) (hf : FileTable.ofJson table = .ok files)
  (hd : Entries.get? "diagnostics" members = some (.array items))
  (hfloats : ∀ x, .float x ∈ value.collapse.numbers → (Number.float x).ReadsBack)
include hp hc ht hf hd hfloats

/-- Either all entries stay and the text with them, or the text is printed anew without the others.
-/
theorem parse_filterText :
    (filterText policy content).1 = content ∧ items.filter (keepsEntry policy files) = items ∨
      Json.parse (filterText policy content).1 = .ok (.object
        (Entries.set "diagnostics" (.array (items.filter (keepsEntry policy files))) members)) := by
  have hparse := parse_filterText_reread policy hp hc ht hf hd
  rwa [Json.reread_eq_self (numbers_filter_keepsEntry policy hp hc hd hfloats)] at hparse

/-- The text of a filtered bundle is read as the document with the entries that stay. -/
theorem collapse_filterText :
    ∃ value, Json.parse (filterText policy content).1 = .ok value ∧
      value.collapse = .object
        (Entries.set "diagnostics" (.array (items.filter (keepsEntry policy files))) members) := by
  obtain ⟨value, φ, hparse, hφ, hcollapse⟩ := exists_collapse_filterText policy hp hc ht hf hd
  refine ⟨value, hparse, hcollapse.trans ?_⟩
  rw [← Json.mapFloats]
  obtain rfl | rfl := hφ
  · exact Json.mapFloats_id _
  · exact Json.reread_eq_self (numbers_filter_keepsEntry policy hp hc hd hfloats)

end ReadsBack

variable (fs₂) (sources₂) in
/-- A reading that fails does so whatever files there are, and finds nothing. -/
theorem readDocument_of_failure
    (h : (enricher.readDocument fs content origin sources).reading.failure ≠ none) :
    (enricher.readDocument fs₂ content origin sources₂).reading =
        (enricher.readDocument fs content origin sources).reading ∧
      (enricher.readDocument fs content origin sources).reading.findings = [] := by
  unfold readDocument at h ⊢
  split
  · exact ⟨rfl, rfl⟩
  · rename_i value hp
    simp only [hp] at h
    split
    · rename_i members hc
      simp only [hc] at h
      unfold readMembers at h ⊢
      split
      · exact ⟨rfl, rfl⟩
      · rename_i table ht
        simp only [ht] at h
        split
        · exact ⟨rfl, rfl⟩
        · rename_i files hf
          simp only [hf] at h
          split
          · exact ⟨rfl, rfl⟩
          · rename_i items hd
            simp only [hd] at h
            exact absurd rfl h
          · exact ⟨rfl, rfl⟩
    · exact ⟨rfl, rfl⟩

/-- Where sources are a function of the path, reading the text of a filtered bundle gives what
reading the bundle does, but for the findings in files that the policy excludes. -/
theorem readDocument_filterText
    (hs : sources.LooksUp fs (enricher.sourcePaths
      (enricher.readDocument fs content origin sources).reading.files) lookup)
    (hs₂ : sources₂.LooksUp fs₂ (enricher.sourcePaths
      (enricher.readDocument fs content origin sources).reading.files) lookup)
    (hf : ∀ value, Json.parse content = .ok value →
      ∀ x, .float x ∈ value.collapse.numbers → (Number.float x).ReadsBack) :
    let whole := (enricher.readDocument fs content origin sources).reading
    let filtered :=
      (enricher.readDocument fs₂ (filterText policy content).1 origin sources₂).reading
    filtered.failure = whole.failure ∧ filtered.files = whole.files ∧
      filtered.findings = whole.findings.filter fun finding =>
        !policy.excludes whole.files finding.primaryFile := by
  intro whole filtered
  by_cases h : whole.failure = none
  · obtain ⟨value, members, hp, hc⟩ :=
      readDocument_of_failure_eq_none enricher fs origin sources h
    have hwhole : whole = (enricher.readMembers fs members origin sources).reading :=
      congrArg Outcome.reading (readDocument_of_parse enricher fs origin sources hp hc)
    obtain ⟨table, files, ht, htable, hd | ⟨items, hd⟩⟩ :=
      readMembers_of_failure_eq_none enricher fs origin sources (hwhole ▸ h)
    · have hfiltered : filtered = (enricher.readMembers fs₂ members origin sources₂).reading := by
        simp only [filtered, filterText_of_none policy hp hc ht htable hd,
          readDocument_of_parse enricher fs₂ origin sources₂ hp hc]
      rw [hfiltered, hwhole, (readMembers_of_none enricher fs origin sources ht htable hd).1,
        (readMembers_of_none enricher fs₂ origin sources₂ ht htable hd).1]
      exact ⟨rfl, rfl, rfl⟩
    · have hfiles : whole.files = files := by
        rw [hwhole, (readMembers_of_array enricher fs origin sources ht htable hd).1]
      obtain ⟨kept, hpk, hck⟩ :=
        collapse_filterText policy hp hc ht htable hd (hf value hp)
      -- The table of the filtered document is the one of the whole document.
      have htk : Entries.get? "files" (Entries.set "diagnostics"
          (.array (items.filter (keepsEntry policy files))) members) = some table :=
        (Entries.get?_set_of_ne (by decide) _ members).trans ht
      have hread := reading_of_looksUp enricher origin hp hc ht htable hd (hfiles ▸ hs)
      have hreadk := reading_of_looksUp enricher origin hpk hck htk htable
        (Entries.get?_set_self _ _ _) (hfiles ▸ hs₂)
      simp only [filtered, whole, hread, hreadk, filterMap_findingAt, and_self]
  · obtain ⟨hsame, hnone⟩ := readDocument_of_failure enricher fs₂ origin sources₂ h
    have hfiltered : filtered = whole := by
      simp only [filtered, filterText_of_failure enricher policy origin h]
      exact hsame
    rw [hfiltered, show whole.findings = [] from hnone]
    exact ⟨rfl, rfl, rfl⟩

/-- An entry at a place in a file. -/
def entryIn (file : Nat) : Json :=
  .object [("location", .object [("line", .ofNat 2), ("col", .ofNat 1), ("file", .ofNat file)])]

/-- A bundle with entries in two files, one of them generated, and a value that is no entry. -/
def twoFiles : Json :=
  .object [
    ("files", .array [.string "gen/a.c", .string "b.c"]),
    ("diagnostics", .array [entryIn 0, .null, entryIn 1])]

theorem parse_twoFiles : Json.parse twoFiles.pretty = .ok twoFiles :=
  Json.parse_pretty_of_numbers_eq [2, 1, 0, 2, 1, 1] (by decide) rfl (by decide)

/-- Files with the source of one of the two. -/
def oneSource : FileSystem :=
  (FileSystem.empty []).put ["b.c"] (.file "int b;\nint c;\n".toUTF8)

/-- The paths of both files are told apart by their components, whatever the files hold. -/
theorem looksUp_twoFiles (fs : FileSystem) :
    SourceCache.empty.LooksUp fs (Enricher.sourcePaths {} ⟨["gen/a.c", "b.c"]⟩)
      fun path => (SourceCache.empty.file fs path).1 := by
  refine SourceCache.looksUp_iff.2 fun path hp other ho hc => ?_
  have hd : FilePath.components "gen/a.c" ≠ FilePath.components "b.c" := by decide
  have hp : path ∈ ["gen/a.c", "b.c"] := hp
  have ho : other ∈ ["gen/a.c", "b.c"] := ho
  simp only [List.mem_cons, List.not_mem_nil, or_false] at hp ho
  rcases hp with rfl | rfl <;> rcases ho with rfl | rfl
  · rfl
  · exact absurd hc hd
  · exact absurd hc.symm hd
  · rfl

theorem readDocument_twoFiles (fs : FileSystem) :
    let reading := (Enricher.readDocument {} fs twoFiles.pretty "b.json" .empty).reading
    reading.failure = none ∧ reading.files = ⟨["gen/a.c", "b.c"]⟩ ∧
      reading.findings.length = 2 := by
  have hd : Entries.get? "diagnostics" [("files", Json.array [.string "gen/a.c", .string "b.c"]),
      ("diagnostics", Json.array [entryIn 0, .null, entryIn 1])] =
        some (.array [entryIn 0, .null, entryIn 1]) := rfl
  have hc : twoFiles.collapse = twoFiles := rfl
  rw [readDocument_of_parse {} fs "b.json" .empty parse_twoFiles hc,
    (readMembers_of_array {} fs "b.json" .empty rfl rfl hd).1]
  refine ⟨rfl, rfl, ?_⟩
  rw [readEntries_of_looksUp {} "b.json" 0 _ (looksUp_twoFiles fs)]
  rfl

theorem readDocument_filterText_twoFiles :
    let policy : SkipPolicy := fun path => "gen/".toList.isPrefixOf path.toList
    let whole := (Enricher.readDocument {} oneSource twoFiles.pretty "b.json" .empty).reading
    let filtered := (Enricher.readDocument {} oneSource (filterText policy twoFiles.pretty).1
      "b.json" .empty).reading
    whole.failure = none ∧ whole.findings.length = 2 ∧ filtered.failure = whole.failure ∧
      filtered.files = whole.files ∧ filtered.findings = whole.findings.filter fun finding =>
        !policy.excludes whole.files finding.primaryFile := by
  obtain ⟨hf, hfiles, hl⟩ := readDocument_twoFiles oneSource
  have hs := looksUp_twoFiles oneSource
  rw [← hfiles] at hs
  refine ⟨hf, hl, readDocument_filterText {} _ "b.json" hs hs fun value hv x hx => ?_⟩
  obtain rfl := Except.ok.inj (parse_twoFiles.symm.trans hv)
  have hx : Number.float x ∈ [2, 1, 0, 2, 1, 1].map Number.int := hx
  simp at hx

end Enricher

end Findings
