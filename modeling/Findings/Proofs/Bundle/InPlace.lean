import Findings.Proofs.Bundle.Rereading

/-!
# Reading a bundle that was filtered in place

A bundle in a file may be filtered there before it is read. Where no source is the bundle itself,
the reading is that of the whole bundle without the findings of excluded files, and what the files
hold afterwards differs in the bundle only. The text is printed anew when an entry is taken out, so
extra members of a finding may hold other floating point numbers, and its hash may be derived from
these. A hasher that does not look at them gives the hash it would have given before.

* `looksUp_readDocument`: reading leaves sources a function of the path.
* `HashesReread`: the hasher does not tell an entry from what its text is read as.
  `hashesReread_of_plain`, `hashesReread_of_floatsReadBack`: two reasons for that, of which the
  former holds for the shape of paths (`Identity.pathShape_plain`).
* `reading_filterText`: reading the filtered text.
* `readText_filterFile`: what the bundle holds afterwards, if the filter leaves its text there.
* `readPath_filterFile`: reading the filtered bundle, for a bundle that can be read.
* `readPath_filterFile_of_failure`: a bundle that cannot be read is not read after that either.
-/

namespace Findings

open FileSystem (AgreeBut)

/-- The shape of a path does not tell what extra members its steps have. -/
theorem Identity.pathShape_plain (path : List Step) (source checker : String) :
    pathShape (path.map Step.plain) source checker = pathShape path source checker := by
  have hanchor : anchor? (path.map Step.plain) = (anchor? path).map Location.plain := by
    unfold anchor?
    rw [List.getLast?_map]
    cases path.getLast? <;> rfl
  have hfields : anchorFields (path.map Step.plain) source = anchorFields path source := by
    unfold anchorFields
    rw [hanchor, List.getLast?_map]
    cases path.getLast? <;> cases anchor? path <;> rfl
  have hsteps (line : Int) : stepFields line ∘ Step.plain = stepFields line := by
    funext step
    obtain ⟨kind, location, message, ranges, edges, extra⟩ := step
    cases location <;> rfl
  unfold pathShape fields
  dsimp only
  rw [hfields, hanchor, List.flatMap_map]
  simp only [← Function.comp_def, hsteps]
  cases anchor? path <;> rfl

namespace Enricher

variable (enricher : Enricher) (policy : SkipPolicy) {fs fs₂ : FileSystem} {files : FileTable}
  {path origin content : String} {sources sources₂ : SourceCache}
  {lookup : String → Option SourceFile}

/-! ## Sources -/

theorem looksUp_readEntries (index : Nat) (items : List Json)
    (hs : sources.LooksUp fs (enricher.sourcePaths files) lookup) :
    (enricher.readEntries fs files origin index items sources).2.LooksUp fs
      (enricher.sourcePaths files) lookup := by
  induction items generalizing index sources with
  | nil => exact hs
  | cons raw items ih => exact ih _ (readEntry_of_looksUp enricher origin index raw hs).2

theorem looksUp_readDocument
    (h : (enricher.readDocument fs content origin sources).reading.failure = none)
    (hs : sources.LooksUp fs (enricher.sourcePaths
      (enricher.readDocument fs content origin sources).reading.files) lookup) :
    (enricher.readDocument fs content origin sources).sources.LooksUp fs (enricher.sourcePaths
      (enricher.readDocument fs content origin sources).reading.files) lookup := by
  obtain ⟨value, members, hp, hc⟩ := readDocument_of_failure_eq_none enricher fs origin sources h
  rw [readDocument_of_parse enricher fs origin sources hp hc] at h hs ⊢
  obtain ⟨table, files, ht, hf, hd | ⟨items, hd⟩⟩ :=
    readMembers_of_failure_eq_none enricher fs origin sources h
  · simpa only [readMembers, ht, hf, hd] using hs
  · simp only [readMembers, ht, hf, hd] at hs ⊢
    exact looksUp_readEntries enricher 0 items hs

/-! ## Hashes -/

/-- The hasher gives the path of an entry the same hash when the entry was printed and read again.
-/
def HashesReread (content : String) : Prop :=
  ∀ value members items, Json.parse content = .ok value → value.collapse = .object members →
    Entries.get? "diagnostics" members = some (.array items) → ∀ raw ∈ items, ∀ once again,
      Diagnostic.ofJson raw = .ok once → Diagnostic.ofJson raw.reread = .ok again →
        ∀ source checker, enricher.hasher again.path source checker =
          enricher.hasher once.path source checker

/-- Only extra members hold other numbers when they are read again. -/
theorem hashesReread_of_plain
    (h : ∀ path source checker,
      enricher.hasher (path.map Step.plain) source checker = enricher.hasher path source checker)
    (content : String) : enricher.HashesReread content := by
  intro _ _ _ _ _ _ raw _ once again honce hagain source checker
  have hplain := Diagnostic.ignoresFloats_ofJson Json.rereadFloat raw
  rw [honce, ← Json.reread, hagain] at hplain
  cases hplain with
  | ok hplain =>
    have hpath : again.path.map Step.plain = once.path.map Step.plain :=
      congrArg Diagnostic.path hplain
    rw [← h again.path, hpath, h once.path]

/-- Numbers that are read back are no other numbers. -/
theorem hashesReread_of_floatsReadBack (h : Json.FloatsReadBack content) :
    enricher.HashesReread content := by
  intro value members items hp hc hd raw hm once again honce hagain source checker
  have hw := Json.within_readsBack_collapse hp (h value hp)
  have hraw : raw.reread = raw := Json.reread_eq_self fun n hn => hw.numbers n <| by
    have harray : n ∈ (Json.array items).numbers := Json.mem_numbers_array.2 ⟨raw, hm, hn⟩
    rw [hc]
    exact Json.mem_numbers_object.2 ⟨_, Entries.mem_of_get? hd, harray⟩
  rw [hraw, honce] at hagain
  rw [Except.ok.inj hagain]

variable {enricher} in
/-- An entry whose path has the same hash has the same finding, as far as it is reported. -/
theorem plain_findingAt_mapFloats {raw : Json} {φ : Binary64 → Binary64}
    (h : ∀ once again, Diagnostic.ofJson raw = .ok once →
      Diagnostic.ofJson (raw.mapFloats φ) = .ok again → ∀ source checker,
        enricher.hasher again.path source checker = enricher.hasher once.path source checker) :
    (enricher.findingAt lookup files origin (raw.mapFloats φ)).map Finding.plain =
      (enricher.findingAt lookup files origin raw).map Finding.plain := by
  have hplain := usable?_mapFloats φ files raw
  cases hu : usable? files raw with
  | none =>
    rw [hu, Option.map_none, Option.map_eq_none_iff] at hplain
    simp only [findingAt, hu, hplain]
  | some diagnostic =>
    rw [hu, Option.map_some] at hplain
    obtain ⟨again, hu', hp⟩ := Option.map_eq_some_iff.1 hplain
    have hhash := h _ _ (ofJson_of_usable hu).1 (ofJson_of_usable hu').1
    obtain ⟨hidentity, hfile, hchecker⟩ := Diagnostic.fields_of_plain_eq hp
    simp only [findingAt, hu, hu', Identity.checkerName, hidentity, hfile, hchecker, hhash]
    cases Identity.nonempty? diagnostic.identityHash with
    | some hash => exact congrArg some (plain_findingOf hp hash _ _)
    | none => exact congrArg some (plain_findingOf hp _ _ _)

/-! ## Texts -/

/-- The members of a bundle of which only some entries were kept, read with other numbers. -/
theorem get?_mapFloatsMembers_kept {members : List (String × Json)} {table : Json}
    (ht : Entries.get? "files" members = some table) (φ : Binary64 → Binary64)
    (kept : List Json) :
    let read := Json.mapFloatsMembers φ (Entries.set "diagnostics" (.array kept) members)
    Entries.get? "files" read = some (table.mapFloats φ) ∧
      Entries.get? "diagnostics" read = some (.array (kept.map (Json.mapFloats φ))) := by
  intro read
  constructor
  · rw [Json.get?_mapFloatsMembers, Entries.get?_set_of_ne (by decide), ht, Option.map_some]
  · rw [Json.get?_mapFloatsMembers, Entries.get?_set_self, Option.map_some, Json.mapFloats_array]

/-- The reading of a filtered text is that of the text without the findings of excluded files, as
far as they are reported. -/
theorem reading_filterText
    (h : (enricher.readDocument fs content origin sources).reading.failure = none)
    (hs : sources.LooksUp fs (enricher.sourcePaths
      (enricher.readDocument fs content origin sources).reading.files) lookup)
    (hs₂ : sources₂.LooksUp fs₂ (enricher.sourcePaths
      (enricher.readDocument fs content origin sources).reading.files) lookup)
    (hh : enricher.HashesReread content) :
    let whole := (enricher.readDocument fs content origin sources).reading
    let filtered :=
      (enricher.readDocument fs₂ (filterText policy content).1 origin sources₂).reading
    filtered.failure = none ∧ filtered.files = whole.files ∧
      filtered.findings.map Finding.plain = (whole.findings.filter fun finding =>
        !policy.excludes whole.files finding.primaryFile).map Finding.plain := by
  intro whole filtered
  obtain ⟨value, members, hp, hc⟩ := readDocument_of_failure_eq_none enricher fs origin sources h
  have hwhole : whole = (enricher.readMembers fs members origin sources).reading :=
    congrArg Outcome.reading (readDocument_of_parse enricher fs origin sources hp hc)
  obtain ⟨table, files, ht, htable, hd | ⟨items, hd⟩⟩ :=
    readMembers_of_failure_eq_none enricher fs origin sources (by rw [← hwhole]; exact h)
  · have hfiltered : filtered = (enricher.readMembers fs₂ members origin sources₂).reading := by
      simp only [filtered, filterText_of_none policy hp hc ht htable hd,
        readDocument_of_parse enricher fs₂ origin sources₂ hp hc]
    rw [hfiltered, hwhole, (readMembers_of_none enricher fs origin sources ht htable hd).1,
      (readMembers_of_none enricher fs₂ origin sources₂ ht htable hd).1]
    exact ⟨rfl, rfl, rfl⟩
  · have hfiles : whole.files = files := by
      rw [hwhole, (readMembers_of_array enricher fs origin sources ht htable hd).1]
    obtain ⟨value₂, φ, hp₂, hφ, hc₂⟩ := exists_collapse_filterText policy hp hc ht htable hd
    let kept := items.filter (keepsEntry policy files)
    obtain ⟨ht₂, hd₂⟩ := get?_mapFloatsMembers_kept ht φ kept
    have htable₂ := (FileTable.ignoresFloats_ofJson.eq φ table).trans htable
    have hread : whole = _ := reading_of_looksUp enricher origin hp hc ht htable hd (hfiles ▸ hs)
    have hread₂ : filtered = _ :=
      reading_of_looksUp enricher origin hp₂ hc₂ ht₂ htable₂ hd₂ (hfiles ▸ hs₂)
    have hsame (raw) (hm : raw ∈ kept) :
        (enricher.findingAt lookup files origin (raw.mapFloats φ)).map Finding.plain =
          (enricher.findingAt lookup files origin raw).map Finding.plain := by
      obtain rfl | rfl := hφ
      · rw [Json.mapFloats_id]
      · exact plain_findingAt_mapFloats
          (hh value members items hp hc hd raw (List.mem_of_mem_filter hm))
    rw [hread₂, hread]
    refine ⟨rfl, rfl, ?_⟩
    rw [← filterMap_findingAt, List.filterMap_map, List.map_filterMap, List.map_filterMap]
    exact List.filterMap_congr hsame

/-! ## Files -/

/-- What reading a bundle whose text can be read gives, and what it changes. -/
theorem readPath_cases (ht : fs.readText path = .ok content) {target : FileSystem.Target}
    (hr : fs.resolve path = .ok target) :
    (∃ replaced, (enricher.readPath fs path sources).1 =
        { (enricher.readDocument fs content path sources).reading with replaced }) ∧
      (enricher.readPath fs path sources).2.2.1 =
        (enricher.readDocument fs content path sources).sources ∧
      AgreeBut target.place fs (enricher.readPath fs path sources).2.2.2 := by
  refine ⟨readPath_of_readText enricher fs sources ht, enricher.sources_readPath ht, ?_⟩
  have hrewrite (document : Json) :=
    FileSystem.agreeBut_rewrite ht hr false fun _ => (document.pretty, ())
  cases pathEnds enricher fs sources ht with
  | kept _ he =>
    have hagree := hrewrite .null
    rw [he]
    exact hagree.trans hagree.symm
  | failed _ _ hw he =>
    rw [he]
    exact (congrArg Prod.snd hw) ▸ hrewrite _
  | replaced _ _ hw he =>
    rw [he]
    exact (congrArg Prod.snd hw) ▸ hrewrite _

theorem filterFile_fs (fs : FileSystem) (path : String) :
    (filterFile policy fs path).2.2 = (fs.rewrite path false (filterText policy)).2 := by
  unfold filterFile
  rcases fs.rewrite path false (filterText policy) with ⟨error | log, after⟩ <;> rfl

variable {policy} in
/-- The bundle holds the filtered text after the filter, unless that is another text and could not
be written. -/
theorem readText_filterFile (ht : fs.readText path = .ok content)
    (hw : (filterText policy content).1 ≠ content → (filterFile policy fs path).1 = .ok ()) :
    (filterFile policy fs path).2.2.readText path = .ok (filterText policy content).1 := by
  obtain ⟨place, hr, hn, hends⟩ := FileSystem.rewrite_of_readText ht false (filterText policy)
  have hput (text : String) : (fs.put place (.file text.toUTF8)).readText path = .ok text :=
    FileSystem.readText_put hr rfl (by simp [hn]) text
  -- Where the filter fails there is nothing to take out.
  have hsame {error} (he : (fs.rewrite path false (filterText policy)).1 = .error error) :
      (filterText policy content).1 = content := by
    by_contra hne
    have hok := hw hne
    unfold filterFile at hok
    revert he hok
    rcases fs.rewrite path false (filterText policy) with ⟨error | log, after⟩ <;> simp
  rw [filterFile_fs]
  cases hends with
  | refused _ he =>
    rw [hsame (congrArg Prod.fst he), he]
    exact ht
  | torn _ _ he =>
    have htext := hsame (congrArg Prod.fst he)
    rw [he, htext, FileSystem.torn_self]
    exact hput content
  | written _ _ he =>
    rw [he]
    exact hput _

/-- What is fetched elsewhere does not depend on the file that differs. -/
theorem fetch_agree {place : Place} (h : AgreeBut place fs fs₂) {source : String}
    (ha : fs.Avoids source place) : SourceCache.fetch fs₂ source = SourceCache.fetch fs source :=
  SourceCache.fetch_congr fun _ => by rw [h.readText ha]

variable {policy}

section

variable (hw : ∀ content, fs.readText path = .ok content →
  (filterText policy content).1 ≠ content → (filterFile policy fs path).1 = .ok ())
include hw

/-- A bundle that cannot be read fails in the same way after it was filtered. -/
theorem readPath_filterFile_of_failure {e : BundleError}
    (h : (enricher.readPath fs path sources).1.failure = some e) :
    (enricher.readPath (filterFile policy fs path).2.2 path sources).1.failure = some e := by
  cases ht : fs.readText path with
  | error error =>
    obtain ⟨refused, he, -⟩ := FileSystem.rewrite_of_readText_error ht (filterText policy)
    rw [filterFile_fs, he]
    exact h
  | ok content =>
    obtain ⟨replaced, hread⟩ := readPath_of_readText enricher fs sources ht
    obtain ⟨replaced₂, hread₂⟩ := readPath_of_readText enricher (filterFile policy fs path).2.2
      sources (readText_filterFile ht (hw content ht))
    rw [hread] at h
    have hne : (enricher.readDocument fs content path sources).reading.failure ≠ none := by
      simp [show (enricher.readDocument fs content path sources).reading.failure = some e from h]
    rw [hread₂, filterText_of_failure enricher policy path hne,
      (readDocument_of_failure enricher (filterFile policy fs path).2.2 path sources hne).1]
    exact h

/-- Reading a bundle after it was filtered in place, against reading it whole: the findings are
those of files that are not excluded, as far as they are reported, the sources stay the same
function of the path, and what the files hold afterwards differs in the bundle only. -/
theorem readPath_filterFile (h : (enricher.readPath fs path sources).1.failure = none)
    (hs : sources.LooksUp fs
      (enricher.sourcePaths (enricher.readPath fs path sources).1.files) lookup)
    (ha : ∀ source ∈ enricher.sourcePaths (enricher.readPath fs path sources).1.files,
      fs.Apart source path)
    (hh : ∀ content, fs.readText path = .ok content → enricher.HashesReread content) :
    let whole := enricher.readPath fs path sources
    let filtered := enricher.readPath (filterFile policy fs path).2.2 path sources
    filtered.1.failure = none ∧ filtered.1.files = whole.1.files ∧
      filtered.1.findings.map Finding.plain = (whole.1.findings.filter fun finding =>
        !policy.excludes whole.1.files finding.primaryFile).map Finding.plain ∧
      whole.2.2.1.LooksUp whole.2.2.2 (enricher.sourcePaths whole.1.files) lookup ∧
      filtered.2.2.1.LooksUp filtered.2.2.2 (enricher.sourcePaths whole.1.files) lookup ∧
      ∃ target, fs.resolve path = .ok target ∧ AgreeBut target.place fs whole.2.2.2 ∧
        AgreeBut target.place whole.2.2.2 filtered.2.2.2 := by
  intro whole filtered
  cases ht : fs.readText path with
  | error e => simp [readPath, ht, Reading.failed] at h
  | ok content =>
    obtain ⟨place, hr, -⟩ := FileSystem.readText_eq_ok ht
    have hagree : AgreeBut place fs (filterFile policy fs path).2.2 := by
      rw [filterFile_fs]
      exact FileSystem.agreeBut_rewrite ht hr false _
    have hr₂ : (filterFile policy fs path).2.2.resolve path = .ok ⟨place, false⟩ :=
      (hagree.resolve path).symm.trans hr
    have ht₂ := readText_filterFile ht (hw content ht)
    obtain ⟨⟨replaced, hread⟩, hsources, hwhole⟩ := readPath_cases enricher ht hr
    obtain ⟨⟨replaced₂, hread₂⟩, hsources₂, hfiltered⟩ := readPath_cases enricher ht₂ hr₂
    rw [hread] at h hs ha
    -- No source is at the place of the bundle, so all are the same in every file system here.
    have haway : ∀ source ∈ enricher.sourcePaths
        (enricher.readDocument fs content path sources).reading.files,
        fs.Avoids source place := fun source hm => ha source hm _ hr
    have hs₂ := hs.congr fun source hm => fetch_agree hagree (haway source hm)
    obtain ⟨hfailure, hfiles, hfindings⟩ :=
      reading_filterText enricher policy h hs hs₂ (hh content ht)
    have hlast := looksUp_readDocument enricher h hs
    have hlast₂ := looksUp_readDocument enricher hfailure (by rw [hfiles]; exact hs₂)
    rw [hfiles] at hlast₂
    have hfs : AgreeBut place whole.2.2.2 filtered.2.2.2 :=
      hwhole.symm.trans (hagree.trans hfiltered)
    simp only [whole, filtered] at hfs ⊢
    rw [hread, hread₂, hsources, hsources₂]
    refine ⟨hfailure, hfiles, hfindings, ?_, ?_, ⟨place, false⟩, hr, hwhole, hfs⟩
    · exact hlast.congr fun source hm => fetch_agree hwhole (haway source hm)
    · exact hlast₂.congr fun source hm =>
        fetch_agree hfiltered (hagree.avoids_iff.1 (haway source hm))

end

end Enricher

end Findings
