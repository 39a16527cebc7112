import Findings.Proofs.Bundle.InPlace

/-!
# Filtering a text again

Filtering takes out of a text the entries that the policy excludes and nothing else. A text without
such an entry, or with no entries to be found in it, stays as it is, to the byte. So does the text
of a filtered bundle: a floating point number in it may be read as another one than was printed, but
such a number is no index, so the entries that stayed are judged as before.

* `Excluded`: an entry in a file that the policy excludes.
* `NothingExcluded`: why a text is left as it is.
* `Holds`: what a text with entries holds.
* `exists_excluded`, `Holds.not_nothingExcluded`: the other texts have an entry to take out.
* `nothingExcluded_filterText`: nothing is left to take out of the text of a filtered bundle.
* `Holds.filtered`: what this text holds.
* `filterText_minimal`: both, and what becomes of a file.
-/

namespace Findings

variable {policy : SkipPolicy} {files : FileTable} {entry value : Json} {content : String}
  {before after members : List (String × Json)} {items kept : List Json}

/-! ## Entries -/

/-- An entry whose location names a file of the table that the policy excludes. -/
def Excluded (policy : SkipPolicy) (files : FileTable) (entry : Json) : Prop :=
  ∃ location file index path, entry.get? "location" = some location ∧
    location.get? "file" = some file ∧ file.toUInt64? = some index ∧
    files.get? index = some path ∧ policy path = true

theorem rawPrimaryFile?_eq_some_iff {index : FileIndex} :
    rawPrimaryFile? entry = some index ↔
      ∃ location file, entry.get? "location" = some location ∧
        location.get? "file" = some file ∧ file.toUInt64? = some index := by
  simp only [rawPrimaryFile?, Option.bind_eq_bind, Option.bind_eq_some_iff, exists_and_left]

theorem SkipPolicy.excludes_iff {index : FileIndex} :
    policy.excludes files index = true ↔
      ∃ path, files.get? index = some path ∧ policy path = true := by
  unfold excludes
  cases files.get? index <;> simp

theorem keepsEntry_eq_false_iff :
    keepsEntry policy files entry = false ↔ Excluded policy files entry := by
  constructor
  · intro h
    unfold keepsEntry at h
    split at h
    · rename_i index hi
      obtain ⟨location, file, hl, hf, hi⟩ := rawPrimaryFile?_eq_some_iff.1 hi
      obtain ⟨path, hp, hpolicy⟩ := SkipPolicy.excludes_iff.1 (by simpa using h)
      exact ⟨location, file, index, path, hl, hf, hi, hp, hpolicy⟩
    · cases h
  · rintro ⟨location, file, index, path, hl, hf, hi, hp, hpolicy⟩
    have hraw := rawPrimaryFile?_eq_some_iff.2 ⟨location, file, hl, hf, hi⟩
    have hskip := SkipPolicy.excludes_iff.2 ⟨path, hp, hpolicy⟩
    simp only [keepsEntry, hraw, hskip, Bool.not_true]

instance : Decidable (Excluded policy files entry) :=
  decidable_of_iff _ keepsEntry_eq_false_iff

theorem filter_keepsEntry (policy : SkipPolicy) (files : FileTable) (items : List Json) :
    items.filter (keepsEntry policy files) =
      items.filter fun entry => ¬ Excluded policy files entry :=
  List.filter_congr fun entry _ => by simp [← keepsEntry_eq_false_iff]

/-- An index is not read as another one. -/
theorem excluded_mapFloats (φ : Binary64 → Binary64) :
    Excluded policy files (entry.mapFloats φ) ↔ Excluded policy files entry := by
  have hraw : rawPrimaryFile? (entry.mapFloats φ) = rawPrimaryFile? entry := by
    simp only [rawPrimaryFile?, Json.get?_mapFloats, Option.bind_eq_bind, Option.bind_map,
      Function.comp_def, Json.toUInt64?_mapFloats]
  rw [← keepsEntry_eq_false_iff, ← keepsEntry_eq_false_iff, keepsEntry, keepsEntry, hraw]

/-! ## Texts -/

/-- The value that a text stands for. Of a key that is repeated the last value counts. -/
def document (content : String) : Except ReadError Json :=
  (Json.parse content).map Json.collapse

theorem document_pretty {value : Json} (h : value.Within Json.Rereads Json.maxDepth)
    (hk : value.DistinctKeys) : document value.pretty = .ok value.reread := by
  rw [document, Json.parse_pretty_reread h]
  exact congrArg Except.ok (Json.collapse_of_distinctKeys (hk.mapFloats _))

theorem distinctKeys_document (h : document content = .ok value) : value.DistinctKeys := by
  obtain ⟨read, -, rfl⟩ := map_eq_ok_iff.1 h
  exact Json.distinctKeys_collapse read

/-- A text with entries: the document in it is an object with a file table, in which `items` is the
list of entries and the other members stand before and after it. -/
structure Holds (content : String) (files : FileTable) (before : List (String × Json))
    (items : List Json) (after : List (String × Json)) : Prop where
  document_eq :
    document content = .ok (.object (before ++ ("diagnostics", .array items) :: after))
  table : Entries.get? "files" (before ++ after) = some files.toJson

/-- A text out of which there is nothing to take. -/
inductive NothingExcluded (policy : SkipPolicy) (content : String) : Prop where
  | notJson {e : ReadError} (h : document content = .error e)
  | notAnObject {value : Json} (h : document content = .ok value)
      (hn : ∀ members, value ≠ .object members)
  | noTable {members : List (String × Json)} (h : document content = .ok (.object members))
      (hn : ∀ files : FileTable, Entries.get? "files" members ≠ some files.toJson)
  | noList {members : List (String × Json)} {value : Json}
      (h : document content = .ok (.object members))
      (hd : Entries.get? "diagnostics" members = some value) (hn : ∀ items, value ≠ .array items)
  | noEntries {members : List (String × Json)} (h : document content = .ok (.object members))
      (hd : Entries.get? "diagnostics" members = none)
  | allStay {files : FileTable} {before after : List (String × Json)} {items : List Json}
      (h : Holds content files before items after)
      (hk : ∀ entry ∈ items, ¬ Excluded policy files entry)

namespace Holds

theorem not_mem_keys (h : Holds content files before items after) :
    "diagnostics" ∉ Entries.keys before := by
  have hkeys := (Json.distinctKeys_object_iff.1 (distinctKeys_document h.document_eq)).1
  simp only [Entries.keys, List.map_append, List.map_cons] at hkeys
  exact fun hm => (List.nodup_append.1 hkeys).2.2 _ hm _ List.mem_cons_self rfl

theorem get?_diagnostics (h : Holds content files before items after) :
    Entries.get? "diagnostics" (before ++ ("diagnostics", .array items) :: after) =
      some (.array items) :=
  Entries.get?_append_cons h.not_mem_keys _ _

theorem get?_files (h : Holds content files before items after) (value : Json) :
    Entries.get? "files" (before ++ ("diagnostics", value) :: after) = some files.toJson := by
  rw [Entries.get?_append_cons_of_ne (by decide), h.table]

/-- Other entries in the place of those that are there. -/
theorem set_diagnostics (h : Holds content files before items after) (kept : List Json) :
    Entries.set "diagnostics" (.array kept) (before ++ ("diagnostics", .array items) :: after) =
      before ++ ("diagnostics", .array kept) :: after :=
  Entries.set_append_cons h.not_mem_keys _ _ _

theorem within {P : Number → Prop} (h : Holds content files before items after)
    (hw : ∀ read, Json.parse content = .ok read → read.collapse.Within P Json.maxDepth)
    (hk : kept ⊆ items) :
    (Json.object (before ++ ("diagnostics", .array kept) :: after)).Within P Json.maxDepth := by
  obtain ⟨read, hread, hc⟩ := map_eq_ok_iff.1 h.document_eq
  rw [← h.set_diagnostics]
  exact (hc ▸ hw read hread).set_array h.get?_diagnostics fun _ hi item hm => hi item (hk hm)

theorem distinctKeys (h : Holds content files before items after) (hk : kept ⊆ items) :
    (Json.object (before ++ ("diagnostics", .array kept) :: after)).DistinctKeys := by
  rw [← h.set_diagnostics]
  exact (distinctKeys_document h.document_eq).set_array h.get?_diagnostics
    fun hi item hm => hi item (hk hm)

end Holds

/-- An object with a file table and a list of entries has all that a text with entries needs. -/
theorem exists_holds (h : document content = .ok (.object members))
    (ht : Entries.get? "files" members = some files.toJson)
    (hd : Entries.get? "diagnostics" members = some (.array items)) :
    ∃ before after, Holds content files before items after := by
  have hkey : "diagnostics" ∈ Entries.keys members :=
    Entries.get?_isSome_iff.1 (Option.isSome_iff_exists.2 ⟨_, hd⟩)
  obtain ⟨before, found, after, hb, rfl⟩ := Entries.exists_append_of_mem_keys hkey
  rw [Entries.get?_append_cons hb] at hd
  obtain rfl := Option.some.inj hd
  rw [Entries.get?_append_cons_of_ne (by decide)] at ht
  exact ⟨before, after, h, ht⟩

/-- What a text holds is determined by the text. -/
theorem Holds.unique {files' : FileTable} {before' after' : List (String × Json)}
    {items' : List Json} (h : Holds content files before items after)
    (h' : Holds content files' before' items' after') : files' = files ∧ items' = items := by
  have hdocument := Except.ok.inj (h'.document_eq.symm.trans h.document_eq)
  have hmembers := Json.object.inj hdocument
  have hfiles := h'.get?_files (.array items')
  have hitems := h'.get?_diagnostics
  rw [hmembers, h.get?_files] at hfiles
  rw [hmembers, h.get?_diagnostics] at hitems
  refine ⟨?_, (Json.array.inj (Option.some.inj hitems)).symm⟩
  have hdecoded := FileTable.ofJson_eq_ok_iff.2 (Option.some.inj hfiles)
  exact Except.ok.inj (hdecoded.symm.trans (FileTable.ofJson_eq_ok_iff.2 rfl))

/-- A text out of which there is something to take has an entry in an excluded file. -/
theorem exists_excluded (hn : ¬ NothingExcluded policy content) :
    ∃ files before items after, Holds content files before items after ∧
      ∃ entry ∈ items, Excluded policy files entry := by
  obtain ⟨value, hdoc⟩ : ∃ value, document content = .ok value := by
    cases hdoc : document content with
    | error e => exact absurd (.notJson hdoc) hn
    | ok value => exact ⟨value, rfl⟩
  obtain ⟨members, rfl⟩ : ∃ members, value = .object members := by
    by_contra hnot
    exact hn (.notAnObject hdoc fun members he => hnot ⟨members, he⟩)
  obtain ⟨files, ht⟩ : ∃ files : FileTable, Entries.get? "files" members = some files.toJson := by
    by_contra hnot
    exact hn (.noTable hdoc fun files he => hnot ⟨files, he⟩)
  obtain ⟨list, hd⟩ : ∃ list, Entries.get? "diagnostics" members = some list :=
    Option.ne_none_iff_exists'.1 fun hd => hn (.noEntries hdoc hd)
  obtain ⟨items, rfl⟩ : ∃ items, list = .array items := by
    by_contra hnot
    exact hn (.noList hdoc hd fun items he => hnot ⟨items, he⟩)
  obtain ⟨before, after, h⟩ := exists_holds hdoc ht hd
  refine ⟨files, before, items, after, h, ?_⟩
  by_contra hall
  exact hn (.allStay h fun entry hm he => hall ⟨entry, hm, he⟩)

/-- The cases of a text with nothing to take out leave no room for an excluded entry. -/
theorem Holds.not_nothingExcluded (h : Holds content files before items after) (hm : entry ∈ items)
    (he : Excluded policy files entry) : ¬ NothingExcluded policy content := by
  have hsame {value : Json} (hdoc : document content = .ok value) :
      value = .object (before ++ ("diagnostics", .array items) :: after) :=
    Except.ok.inj (hdoc.symm.trans h.document_eq)
  intro hn
  cases hn with
  | notJson hdoc => cases hdoc.symm.trans h.document_eq
  | notAnObject hdoc hn => exact hn _ (hsame hdoc)
  | noTable hdoc hn =>
    obtain rfl := Json.object.inj (hsame hdoc)
    exact hn files (h.get?_files _)
  | noList hdoc hd hn =>
    obtain rfl := Json.object.inj (hsame hdoc)
    exact hn items (Option.some.inj (hd.symm.trans h.get?_diagnostics))
  | noEntries hdoc hd =>
    obtain rfl := Json.object.inj (hsame hdoc)
    cases hd.symm.trans h.get?_diagnostics
  | allStay h' hk =>
    obtain ⟨rfl, rfl⟩ := h.unique h'
    exact hk entry hm he

/-! ## Filtered texts -/

/-- The entries that stay. -/
def staying (policy : SkipPolicy) (files : FileTable) (items : List Json) : List Json :=
  items.filter fun entry => ¬ Excluded policy files entry

theorem staying_subset (policy : SkipPolicy) (files : FileTable) (items : List Json) :
    staying policy files items ⊆ items :=
  List.filter_subset_self _

theorem staying_eq_self (h : ∀ entry ∈ items, ¬ Excluded policy files entry) :
    staying policy files items = items :=
  List.filter_eq_self.2 fun entry hm => decide_eq_true (h entry hm)

theorem length_staying_eq_iff : (staying policy files items).length = items.length ↔
    ∀ entry ∈ items, ¬ Excluded policy files entry := by
  simp [staying, List.length_filter_eq_length_iff]

theorem Holds.filterText_eq (policy : SkipPolicy) (h : Holds content files before items after) :
    (filterText policy content).1 =
      if ∀ entry ∈ items, ¬ Excluded policy files entry then content
      else (Json.object
        (before ++ ("diagnostics", .array (staying policy files items)) :: after)).pretty := by
  obtain ⟨read, hread, hc⟩ := map_eq_ok_iff.1 h.document_eq
  rw [Enricher.filterText_of_array policy hread hc (h.get?_files _)
    (FileTable.ofJson_eq_ok_iff.2 rfl) h.get?_diagnostics, filter_keepsEntry, ← staying,
    h.set_diagnostics]
  exact if_congr length_staying_eq_iff rfl rfl

/-- Only a text with entries is changed. -/
theorem exists_holds_of_filterText_ne (h : (filterText policy content).1 ≠ content) :
    ∃ files before items after, Holds content files before items after := by
  unfold filterText at h
  split at h
  · exact absurd rfl h
  · rename_i read hread
    split at h
    · exact absurd rfl h
    · exact absurd rfl h
    · rename_i filtered hfiltered
      obtain ⟨members, table, files, items, hc, ht, htable, hd⟩ :=
        Enricher.filterDocument_eq_ok_some policy hfiltered
      obtain rfl := FileTable.ofJson_eq_ok_iff.1 htable
      obtain ⟨before, after, hholds⟩ := exists_holds (map_eq_ok_iff.2 ⟨read, hread, hc⟩) ht hd
      exact ⟨files, before, items, after, hholds⟩

theorem filterText_of_nothingExcluded (hn : NothingExcluded policy content) :
    (filterText policy content).1 = content := by
  by_contra hne
  obtain ⟨files, before, items, after, h⟩ := exists_holds_of_filterText_ne hne
  rw [h.filterText_eq] at hne
  split at hne
  · exact hne rfl
  · rename_i hall
    obtain ⟨entry, hm, he⟩ : ∃ entry ∈ items, Excluded policy files entry := by simpa using hall
    exact h.not_nothingExcluded hm he hn

/-- The text of a filtered bundle holds the other entries and all else that the bundle does. -/
theorem Holds.filtered (policy : SkipPolicy) (h : Holds content files before items after)
    (hf : Json.FloatsReadBack content) :
    Holds (filterText policy content).1 files before (staying policy files items) after := by
  rw [h.filterText_eq]
  split
  · rename_i hall
    rwa [staying_eq_self hall]
  · have hkept := staying_subset policy files items
    have hw :=
      h.within (fun read hread => Json.within_readsBack_collapse hread (hf read hread)) hkept
    have hdoc := document_pretty (Json.within_rereads hw) (h.distinctKeys hkept)
    rw [Json.reread_eq_self hw.numbers] at hdoc
    exact ⟨hdoc, h.table⟩

/-- With some of its entries a document is read from its text, but for its floating point numbers.
-/
theorem Holds.pretty (h : Holds content files before items after) (hk : kept ⊆ items) :
    Holds (Json.object (before ++ ("diagnostics", .array kept) :: after)).pretty files
      (Json.mapFloatsMembers Json.rereadFloat before) (kept.map Json.reread)
      (Json.mapFloatsMembers Json.rereadFloat after) where
  document_eq := by
    have hw := h.within (fun read hread => Json.within_rereads_collapse hread) hk
    rw [document_pretty hw (h.distinctKeys hk), Json.reread, Json.mapFloats_object,
      List.map_append, List.map_cons, Json.mapFloats_array, ← Json.mapFloatsMembers_eq_map,
      ← Json.mapFloatsMembers_eq_map]
    rfl
  table := by
    rw [Json.mapFloatsMembers_eq_map, Json.mapFloatsMembers_eq_map, ← List.map_append,
      Entries.get?_map, h.table, Option.map_some, FileTable.toJson_mapFloats]

/-- No entry that stays is excluded when its text is read. -/
theorem nothingExcluded_filterText (policy : SkipPolicy) (content : String) :
    NothingExcluded policy (filterText policy content).1 := by
  by_cases hn : NothingExcluded policy content
  · rwa [filterText_of_nothingExcluded hn]
  · obtain ⟨files, before, items, after, h, entry, hm, hentry⟩ := exists_excluded hn
    rw [h.filterText_eq, if_neg fun hall => hall entry hm hentry]
    refine .allStay (h.pretty (staying_subset policy files items)) fun entry hm => ?_
    obtain ⟨printed, hp, rfl⟩ := List.mem_map.1 hm
    rw [Json.reread, excluded_mapFloats]
    exact of_decide_eq_true (List.mem_filter.1 hp).2

/-! ## Files -/

section Files

variable {fs : FileSystem} {path : String}

/-- What filtering a file whose text can be read may do: whatever happens no other file changes. If
it goes well, the file holds the filtered text and what was said about the text is returned; and it
goes well if the device accepts the file. -/
structure FiltersFile (policy : SkipPolicy) (fs : FileSystem) (path content : String)
    (place : Place) : Prop where
  frame : FileSystem.AgreeBut place fs (filterFile policy fs path).2.2
  filtered : (filterFile policy fs path).1 = .ok () →
    (filterFile policy fs path).2.1 = (filterText policy content).2 ∧
      (filterFile policy fs path).2.2.node? place =
        some (.file (filterText policy content).1.toUTF8)
  succeeds : fs.Accepts path → (filterFile policy fs path).1 = .ok ()

/-- A file that holds text is filtered where it is. -/
theorem filterFile_of_readText (policy : SkipPolicy) (h : fs.readText path = .ok content) :
    ∃ place, fs.resolve path = .ok ⟨place, false⟩ ∧ FiltersFile policy fs path content place := by
  obtain ⟨place, ht, hn, hends⟩ := FileSystem.rewrite_of_readText h false (filterText policy)
  have hne : place ≠ [] := by
    rintro rfl
    cases hn
  refine ⟨place, ht, ?_, fun hok => ?_, fun ha => ?_⟩
  · rw [Enricher.filterFile_fs]
    exact FileSystem.agreeBut_rewrite h ht false _
  · cases hends with
    | refused _ hw | torn _ _ hw =>
      rw [filterFile, hw] at hok
      cases hok
    | written _ _ hw =>
      rw [filterFile, hw]
      exact ⟨rfl, FileSystem.node?_put_self fs _ hne⟩
  · obtain ⟨place, -, hw⟩ := ha.rewrite_of_readText h false (filterText policy)
    rw [filterFile, hw]

/-- A file that holds no text, or is not there, is not filtered. -/
theorem filterFile_of_readText_error {e : FileError} (policy : SkipPolicy)
    (h : fs.readText path = .error e) :
    ∃ e', filterFile policy fs path = (.error e', [], fs) := by
  obtain ⟨error, hw, -⟩ := FileSystem.rewrite_of_readText_error h (filterText policy)
  exact ⟨.io path error, by rw [filterFile, hw]; rfl⟩

/-- Where filtering a file fails, nothing has changed, unless a write failed. -/
theorem fs_of_filterFile_eq_error (hc : fs.Completes path) {e : BundleError}
    (h : (filterFile policy fs path).1 = .error e) : (filterFile policy fs path).2.2 = fs := by
  rw [Enricher.filterFile_fs]
  unfold filterFile at h
  rcases hw : fs.rewrite path false (filterText policy) with ⟨error | log, after⟩
  · exact FileSystem.eq_of_rewrite_eq_error hc hw
  · rw [hw] at h
    cases h

end Files

/-! ## The result -/

/-- Filtering a filtered text changes nothing, and filtering takes out no more than it has to. Where
there is nothing to take out the text stays; else, if the floats in it are read back, the new text
holds what the old one does without the excluded entries. A file is filtered as its text is, or is
left alone with an error, as long as no write fails. -/
theorem filterText_minimal (policy : SkipPolicy) (content : String) :
    let filtered := (filterText policy content).1
    (filterText policy filtered).1 = filtered ∧
      (NothingExcluded policy content → filtered = content) ∧
      (¬ NothingExcluded policy content → ∃ files before items after,
        Holds content files before items after ∧
        (∃ entry ∈ items, Excluded policy files entry) ∧
        (Json.FloatsReadBack content →
          Holds filtered files before (staying policy files items) after)) ∧
      ∀ (fs : FileSystem) (path : String),
        (fs.readText path = .ok content → ∃ place,
          fs.resolve path = .ok ⟨place, false⟩ ∧ FiltersFile policy fs path content place) ∧
        (∀ e, fs.readText path = .error e →
          ∃ e', filterFile policy fs path = (.error e', [], fs)) ∧
        (fs.Completes path → ∀ e, (filterFile policy fs path).1 = .error e →
          (filterFile policy fs path).2.2 = fs) := by
  intro filtered
  refine ⟨filterText_of_nothingExcluded (nothingExcluded_filterText policy content),
    filterText_of_nothingExcluded, fun hn => ?_, fun fs path =>
      ⟨filterFile_of_readText policy, fun e => filterFile_of_readText_error policy,
        fun hc e => fs_of_filterFile_eq_error hc⟩⟩
  obtain ⟨files, before, items, after, h, hex⟩ := exists_excluded hn
  exact ⟨files, before, items, after, h, hex, h.filtered policy⟩

/-- Of the entries of this bundle the one in the generated file goes. -/
theorem holds_twoFiles : Holds Enricher.twoFiles.pretty ⟨["gen/a.c", "b.c"]⟩
    [("files", .array [.string "gen/a.c", .string "b.c"])]
    [Enricher.entryIn 0, .null, Enricher.entryIn 1] [] where
  document_eq := map_eq_ok_iff.2 ⟨_, Enricher.parse_twoFiles, rfl⟩
  table := rfl

theorem filterText_minimal_twoFiles :
    let policy : SkipPolicy := fun path => "gen/".toList.isPrefixOf path.toList
    let content := Enricher.twoFiles.pretty
    let fs := Enricher.oneSource.put ["b.json"] (.file content.toUTF8)
    let readOnly := fs.refuse ["b.json"] .readOnly
    let filtered := (filterText policy content).1
    ¬ NothingExcluded policy content ∧ Json.FloatsReadBack content ∧
      fs.readText "b.json" = .ok content ∧ fs.Accepts "b.json" ∧
      (filterText policy filtered).1 = filtered ∧
      (∃ files before items after, Holds content files before items after ∧
        (∃ entry ∈ items, Excluded policy files entry) ∧
        Holds filtered files before (staying policy files items) after) ∧
      (filterFile policy fs "b.json").1 = .ok () ∧
      (filterFile policy readOnly "b.json").1 = .error (.io "b.json" (.device .readOnly)) ∧
      (filterFile policy readOnly "b.json").2.2 = readOnly := by
  intro policy content fs readOnly filtered
  have hn : ¬ NothingExcluded policy content :=
    holds_twoFiles.not_nothingExcluded List.mem_cons_self
      ⟨_, _, 0, "gen/a.c", rfl, rfl, rfl, rfl, rfl⟩
  have hf : Json.FloatsReadBack content :=
    Json.floatsReadBack_pretty Enricher.parse_twoFiles [2, 1, 0, 2, 1, 1] rfl
  have hr : Enricher.oneSource.resolve "b.json" = .ok ⟨["b.json"], false⟩ := rfl
  have hread : fs.readText "b.json" = .ok content := FileSystem.readText_put hr rfl nofun content
  have ha : fs.Accepts "b.json" := FileSystem.accepts_of_device rfl "b.json"
  obtain ⟨hagain, -, hchanged, hfile⟩ := filterText_minimal policy content
  obtain ⟨files, before, items, after, hholds, hex, hfiltered⟩ := hchanged hn
  obtain ⟨place, -, hfilters⟩ := (hfile fs "b.json").1 hread
  have hr' : (Enricher.oneSource.refuse ["b.json"] .readOnly).resolve "b.json" =
      .ok ⟨["b.json"], false⟩ := rfl
  have hread' : readOnly.readText "b.json" = .ok content :=
    FileSystem.readText_put hr' rfl nofun content
  have hrefuses : readOnly.refusal? ["b.json"] = some .readOnly := rfl
  have he : (filterFile policy readOnly "b.json").1 =
      .error (.io "b.json" (.device .readOnly)) := by
    rw [filterFile, FileSystem.rewrite_of_refusal hread' rfl hrefuses]
  have hsame := (hfile readOnly "b.json").2.2 (fun _ _ _ _ => rfl) _ he
  refine ⟨hn, hf, hread, ha, hagain, ?_, hfilters.succeeds ha, he, hsame⟩
  exact ⟨files, before, items, after, hholds, hex, hfiltered hf⟩

end Findings
