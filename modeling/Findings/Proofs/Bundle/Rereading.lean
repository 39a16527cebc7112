import Findings.Proofs.Bundle.Filtering
import Findings.Proofs.Bundle.Frame
import Findings.Proofs.Bundle.Plain

/-!
# Reading a bundle again

A bundle that was read may be read again by the same reader, from whatever the first reading left in
the file. Its findings look the same (`Finding.plain`): either their hashes are in the file now, or
they are derived again from the same sources. Only then do the sources matter, and nothing is
written to the file either way.

* `readEntries_after`: what is found in entries is a function of the sources that are looked up, of
  any that agree with the cache in the end.
* `findingAt_raw_readEntry`: in an entry that was read, the hash is found, whatever becomes of its
  floating point numbers.
* `exists_reread`: what the first reading leaves in the file, if it may be replaced.
* `ReadsAgain`, `readPath_again`: the second reading.
-/

namespace Findings.Enricher

variable (enricher first second : Enricher) {fs fs₂ : FileSystem} {files : FileTable}
  (origin : String) {sources sources₂ : SourceCache}

/-! ## Sources -/

theorem readEntry_after (fs : FileSystem) (files : FileTable) (index : Nat) (raw : Json)
    (sources : SourceCache) :
    ∃ earlier ⊆ enricher.sourcePaths files,
      (enricher.readEntry fs files origin index raw sources).2 = sources.after fs earlier ∧
      ∀ lookup, (sources.after fs earlier).Agrees (enricher.sourcePaths files) lookup →
        (enricher.readEntry fs files origin index raw sources).1.finding =
          enricher.findingAt lookup files origin raw := by
  obtain ⟨path?, hmem, hnext, hfinding⟩ :=
    exists_lookup_readEntry enricher fs files origin index raw sources
  refine ⟨path?.toList, hmem, hnext, fun lookup hl => hfinding lookup fun path hp => ?_⟩
  obtain rfl := Option.mem_def.1 hp
  exact SourceCache.Agrees.file hl (hmem (List.mem_singleton_self path))

theorem readEntries_after (fs : FileSystem) (files : FileTable) (index : Nat) (items : List Json)
    (sources : SourceCache) :
    ∃ earlier ⊆ enricher.sourcePaths files,
      (enricher.readEntries fs files origin index items sources).2 = sources.after fs earlier ∧
      ∀ lookup, (sources.after fs earlier).Agrees (enricher.sourcePaths files) lookup →
        (enricher.readEntries fs files origin index items sources).1.filterMap Entry.finding =
          items.filterMap (enricher.findingAt lookup files origin) := by
  induction items generalizing index sources with
  | nil => exact ⟨[], List.nil_subset _, rfl, fun _ _ => rfl⟩
  | cons raw items ih =>
    obtain ⟨earlier, he, hsources, hfinding⟩ :=
      enricher.readEntry_after origin fs files index raw sources
    obtain ⟨later, hl, hrest, hfindings⟩ := ih (index + 1) (sources.after fs earlier)
    refine ⟨earlier ++ later, List.append_subset.2 ⟨he, hl⟩, ?_, fun lookup ha => ?_⟩
    · rw [SourceCache.after_append, ← hrest, ← hsources]
      rfl
    · rw [SourceCache.after_append] at ha
      rw [readEntries_cons, List.filterMap_cons, List.filterMap_cons, hsources,
        hfinding lookup ha.of_after, hfindings lookup ha]

/-! ## Entries that were read -/

theorem usable?_mapFloats (φ : Binary64 → Binary64) (files : FileTable) (raw : Json) :
    (usable? files (raw.mapFloats φ)).map Diagnostic.plain =
      (usable? files raw).map Diagnostic.plain := by
  have h := Diagnostic.ignoresFloats_ofJson φ raw
  unfold usable?
  generalize Diagnostic.ofJson raw = once at h ⊢
  generalize Diagnostic.ofJson (raw.mapFloats φ) = again at h ⊢
  cases h with
  | error e => rfl
  | @ok diagnostic diagnostic' h =>
    have hfiles : diagnostic'.files = diagnostic.files := by
      rw [← Diagnostic.files_plain diagnostic', h, Diagnostic.files_plain]
    have houtside : outside? files diagnostic' = outside? files diagnostic := by
      rw [outside?, outside?, hfiles]
    simp only [houtside]
    split
    · exact congrArg some h
    · rfl

variable {origin}

theorem plain_findingOf {diagnostic diagnostic' : Diagnostic}
    (h : diagnostic'.plain = diagnostic.plain) (hash : String) (once again : HashOrigin) :
    (findingOf diagnostic' origin hash again).plain =
      (findingOf diagnostic origin hash once).plain := by
  change findingOf diagnostic'.plain origin hash .source =
    findingOf diagnostic.plain origin hash .source
  rw [h]

/-- A hash that an entry has is found in it again. -/
theorem findingAt_mapFloats {raw : Json} {diagnostic : Diagnostic} {hash : String}
    (hu : usable? files raw = some diagnostic)
    (hn : Identity.nonempty? diagnostic.identityHash = some hash) (hashOrigin : HashOrigin)
    (φ : Binary64 → Binary64) (lookup : String → Option SourceFile) :
    ∃ finding, enricher.findingAt lookup files origin (raw.mapFloats φ) = some finding ∧
      finding.hashOrigin = .source ∧
      finding.plain = (findingOf diagnostic origin hash hashOrigin).plain := by
  have hplain := usable?_mapFloats φ files raw
  rw [hu, Option.map_some] at hplain
  obtain ⟨diagnostic', hu', hp⟩ := Option.map_eq_some_iff.1 hplain
  refine ⟨findingOf diagnostic' origin hash .source, ?_, rfl, plain_findingOf hp hash _ _⟩
  have hn' : Identity.nonempty? diagnostic'.identityHash = some hash := by
    rw [(Diagnostic.fields_of_plain_eq hp).1, hn]
  simp only [findingAt, hu', hn']

/-- In an entry that was read, another reader finds the same, with its hash. -/
theorem findingAt_raw_readEntry (hh : ∀ path source checker, first.hasher path source checker ≠ "")
    (index : Nat) (raw : Json) (φ : Binary64 → Binary64) (lookup : String → Option SourceFile) :
    let once := (first.readEntry fs files origin index raw sources).1
    let again := second.findingAt lookup files origin (once.raw.mapFloats φ)
    (∀ finding ∈ again, finding.hashOrigin = .source) ∧
      again.map Finding.plain = once.finding.map Finding.plain := by
  intro once again
  obtain ⟨hu, hf⟩ | ⟨diagnostic, hash, hashOrigin, hu, hn, hf⟩ :=
    first.readEntry_cases fs origin index sources files raw hh
  · have hu' : usable? files (once.raw.mapFloats φ) = none := by
      have hplain := usable?_mapFloats φ files once.raw
      rwa [show usable? files once.raw = none from hu, Option.map_none,
        Option.map_eq_none_iff] at hplain
    have hagain : again = none := by
      simp only [again, findingAt, hu']
    rw [hagain, show once.finding = none from hf]
    exact ⟨by simp, rfl⟩
  · obtain ⟨finding, hfound, hsource, hplain⟩ :=
      second.findingAt_mapFloats hu hn hashOrigin φ lookup
    rw [show again = some finding from hfound, show once.finding = _ from hf]
    exact ⟨fun f hf => Option.some.inj hf ▸ hsource, congrArg some hplain⟩

/-- In entries that were read, another reader finds the same, with all hashes. -/
theorem filterMap_findingAt_raw (hh : ∀ path source checker, first.hasher path source checker ≠ "")
    (index : Nat) (items : List Json) (sources : SourceCache) (φ : Binary64 → Binary64)
    (lookup : String → Option SourceFile) :
    let once := (first.readEntries fs files origin index items sources).1
    let again := ((once.map Entry.raw).map (Json.mapFloats φ)).filterMap
      (second.findingAt lookup files origin)
    (∀ finding ∈ again, finding.hashOrigin = .source) ∧
      again.map Finding.plain = (once.filterMap Entry.finding).map Finding.plain := by
  induction items generalizing index sources with
  | nil => exact ⟨fun _ h => absurd h List.not_mem_nil, rfl⟩
  | cons raw items ih =>
    obtain ⟨hsource, hplain⟩ :=
      first.findingAt_raw_readEntry second hh index raw φ lookup
    obtain ⟨hsources, hplains⟩ :=
      ih (index + 1) (first.readEntry fs files origin index raw sources).2
    intro once again
    simp only [again, once, readEntries_cons, List.map_cons, List.filterMap_cons]
    revert hsource hplain
    generalize second.findingAt lookup files origin _ = found
    generalize (first.readEntry fs files origin index raw sources).1.finding = expected
    intro hsource hplain
    match found, expected, hplain with
    | none, none, _ => exact ⟨hsources, hplains⟩
    | some finding, some _, hplain =>
      refine ⟨List.forall_mem_cons.2 ⟨hsource finding rfl, hsources⟩, ?_⟩
      rw [List.map_cons, List.map_cons, hplains, Option.some.inj hplain]

/-! ## The members of a bundle -/

/-- What an outcome says about some items: the findings of these, as a function of the sources. -/
structure Finds (enricher : Enricher) (files : FileTable) (items : List Json) (origin : String)
    (fs : FileSystem) (sources : SourceCache) (outcome : Outcome) : Prop where
  failure : outcome.reading.failure = none
  table : outcome.reading.files = files
  sources : ∃ earlier ⊆ enricher.sourcePaths files, outcome.sources = sources.after fs earlier
  findings : ∀ lookup, outcome.sources.Agrees (enricher.sourcePaths files) lookup →
    outcome.reading.findings = items.filterMap (enricher.findingAt lookup files origin)

variable {members enriched : List (String × Json)}

theorem finds_of_array (origin : String) (fs : FileSystem) (sources : SourceCache)
    {value : Json} {items : List Json} (hv : Entries.get? "files" members = some value)
    (hf : FileTable.ofJson value = .ok files)
    (hd : Entries.get? "diagnostics" members = some (.array items)) :
    enricher.Finds files items origin fs sources
      (enricher.readMembers fs members origin sources) := by
  obtain ⟨earlier, he, hsources, hfindings⟩ :=
    enricher.readEntries_after origin fs files 0 items sources
  simp only [readMembers, hv, hf, hd]
  exact ⟨rfl, rfl, ⟨earlier, he, hsources⟩, fun lookup ha => hfindings lookup (hsources ▸ ha)⟩

theorem finds_of_none (origin : String) (fs : FileSystem) (sources : SourceCache) {value : Json}
    (hv : Entries.get? "files" members = some value) (hf : FileTable.ofJson value = .ok files)
    (hd : Entries.get? "diagnostics" members = none) :
    enricher.Finds files [] origin fs sources
      (enricher.readMembers fs members origin sources) := by
  simp only [readMembers, hv, hf, hd]
  exact ⟨rfl, rfl, ⟨[], List.nil_subset _, rfl⟩, fun _ _ => rfl⟩

/-- Members that can be read are read from any sources. -/
theorem exists_finds (h : (enricher.readMembers fs members origin sources).reading.failure = none) :
    ∃ files items, ∀ fs sources, enricher.Finds files items origin fs sources
      (enricher.readMembers fs members origin sources) := by
  obtain ⟨value, files, hv, hf, hd | ⟨items, hd⟩⟩ :=
    readMembers_of_failure_eq_none enricher fs origin sources h
  · exact ⟨files, [], fun fs sources => enricher.finds_of_none origin fs sources hv hf hd⟩
  · exact ⟨files, items, fun fs sources => enricher.finds_of_array origin fs sources hv hf hd⟩

section Enriched

variable (hh : ∀ path source checker, first.hasher path source checker ≠ "")
  (h : (first.readMembers fs members origin sources).reading.failure = none)
  (hdoc : (first.readMembers fs members origin sources).document = some (.object enriched))
  (φ : Binary64 → Binary64)
include hh h hdoc

/-- The items of an enriched bundle have all hashes, whatever becomes of the floating point numbers
in them, so what is found in them does not depend on the sources. -/
theorem exists_finds_mapFloats :
    let once := (first.readMembers fs members origin sources).reading
    ∃ items, (∀ fs sources, second.Finds once.files items origin fs sources
        (second.readMembers fs (Json.mapFloatsMembers φ enriched) origin sources)) ∧
      ∀ lookup, (∀ finding ∈ items.filterMap (second.findingAt lookup once.files origin),
          finding.hashOrigin = .source) ∧
        (items.filterMap (second.findingAt lookup once.files origin)).map Finding.plain =
          once.findings.map Finding.plain := by
  intro once
  obtain ⟨value, files, hv, hf, hd | ⟨items, hd⟩⟩ :=
    readMembers_of_failure_eq_none first fs origin sources h
  · obtain ⟨hr, hdoc'⟩ := readMembers_of_none first fs origin sources hv hf hd
    obtain rfl := Json.object.inj (Option.some.inj (hdoc'.symm.trans hdoc))
    have hv' : Entries.get? "files" (Json.mapFloatsMembers φ members) =
        some (value.mapFloats φ) := by
      rw [Json.get?_mapFloatsMembers, hv, Option.map_some]
    have hd' : Entries.get? "diagnostics" (Json.mapFloatsMembers φ members) = none := by
      rw [Json.get?_mapFloatsMembers, hd, Option.map_none]
    have hf' := (FileTable.ignoresFloats_ofJson.eq φ value).trans hf
    rw [show once = { files } from hr]
    exact ⟨[], fun fs sources => second.finds_of_none origin fs sources hv' hf' hd',
      fun lookup => by simp⟩
  · obtain ⟨hr, hdoc'⟩ := readMembers_of_array first fs origin sources hv hf hd
    let raws := (first.readEntries fs files origin 0 items sources).1.map Entry.raw
    obtain rfl : Entries.set "diagnostics" (.array raws) members = enriched :=
      Json.object.inj (Option.some.inj (hdoc'.symm.trans hdoc))
    have hv' : Entries.get? "files" (Json.mapFloatsMembers φ
        (Entries.set "diagnostics" (.array raws) members)) = some (value.mapFloats φ) := by
      rw [Json.get?_mapFloatsMembers, Entries.get?_set_of_ne (by decide), hv, Option.map_some]
    have hd' : Entries.get? "diagnostics" (Json.mapFloatsMembers φ
        (Entries.set "diagnostics" (.array raws) members)) =
          some (.array (raws.map (Json.mapFloats φ))) := by
      rw [Json.get?_mapFloatsMembers, Entries.get?_set_self, Option.map_some, Json.mapFloats_array]
    have hf' := (FileTable.ignoresFloats_ofJson.eq φ value).trans hf
    rw [show once = _ from hr]
    exact ⟨_, fun fs sources => second.finds_of_array origin fs sources hv' hf' hd',
      first.filterMap_findingAt_raw second hh 0 items sources φ⟩

/-- An enriched bundle is read with the same findings and nothing to write. -/
theorem readMembers_mapFloats (fs₂ : FileSystem) (sources₂ : SourceCache) :
    let once := (first.readMembers fs members origin sources).reading
    let again := second.readMembers fs₂ (Json.mapFloatsMembers φ enriched) origin sources₂
    again.reading.failure = none ∧ again.reading.files = once.files ∧
      again.reading.isDirty = false ∧
      again.reading.findings.map Finding.plain = once.findings.map Finding.plain ∧
      ∃ earlier ⊆ second.sourcePaths once.files, again.sources = sources₂.after fs₂ earlier := by
  intro once again
  obtain ⟨items, hfinds, hitems⟩ := first.exists_finds_mapFloats second hh h hdoc φ
  have hagain := hfinds fs₂ sources₂
  -- The sources do not matter, so any that agree with the cache will do.
  have hfindings := hagain.findings _ (SourceCache.agrees_known _ _)
  obtain ⟨hsource, hplain⟩ := hitems again.sources.known
  refine ⟨hagain.failure, hagain.table, ?_, by rw [hfindings, hplain], hagain.sources⟩
  rw [(isDirty_readMembers second fs₂ origin sources₂).1, List.any_eq_false]
  intro finding hf
  rw [hfindings] at hf
  simp [hsource finding hf]

end Enriched

/-! ## The bundle at a path -/

variable {path content : String} {place : Place} {value : Json}

theorem sources_readPath (ht : fs.readText path = .ok content) :
    (enricher.readPath fs path sources).2.2.1 =
      (enricher.readDocument fs content path sources).sources := by
  cases pathEnds enricher fs sources ht with
  | kept _ he => rw [he]
  | failed _ _ _ he => rw [he]
  | replaced _ _ _ he => rw [he]

/-- A reading of a file that the device refuses to have written leaves it alone. -/
theorem readPath_of_refused (ht : fs.readText path = .ok content)
    (hplace : fs.resolve path = .ok ⟨place, false⟩) {error : DeviceError}
    (hr : fs.refusal? place = some error) : (enricher.readPath fs path sources).2.2.2 = fs := by
  have hrefused (document : Json) :
      (fs.rewrite path false fun _ => (document.pretty, ())).2 = fs := by
    rw [FileSystem.rewrite_of_refusal ht hplace hr]
  cases pathEnds enricher fs sources ht with
  | kept _ he => rw [he]
  | failed _ _ hw he =>
    rw [he]
    exact (congrArg Prod.snd hw).symm.trans (hrefused _)
  | replaced _ _ hw he =>
    rw [he]
    exact (congrArg Prod.snd hw).symm.trans (hrefused _)

/-- Where writes do not fail a reading writes what it derives, or no reading writes anything. -/
theorem persisted_or_keeps (sources : SourceCache) (ht : fs.readText path = .ok content)
    (hc : fs.Completes path) :
    (enricher.readPath fs path sources).1.Persisted ∨
      ∀ sources₂, (enricher.readPath fs path sources₂).2.2.2 = fs := by
  cases pathEnds enricher fs sources ht with
  | kept hn he =>
    cases hm : enricher.mayReplace with
    | false =>
      exact .inr fun sources₂ => (readPath_of_kept enricher fs sources₂ ht (by simp [hm])).2
    | true =>
      refine .inl fun hd => absurd ?_ Bool.false_ne_true
      rw [← hn, hm, Bool.and_true, ← hd, he]
  | @failed document _ _ _ _ hw _ =>
    obtain ⟨place, hplace, -, hends⟩ :=
      FileSystem.rewrite_of_readText ht false fun _ => (document.pretty, ())
    cases hends with
    | refused hr _ => exact .inr fun sources₂ => enricher.readPath_of_refused ht hplace hr
    | torn _ hf _ => cases (hc _ hplace _ _).symm.trans hf
    | written _ _ hw' => cases hw.symm.trans hw'
  | replaced _ _ _ he => exact .inl fun _ => by rw [he]

/-- What a reading leaves in the file, if it has written what it derived: the enriched document, in
which floating point numbers may have changed. -/
theorem exists_reread (ht : fs.readText path = .ok content) (hp : Json.parse content = .ok value)
    (hc : value.collapse = .object members)
    (h : (enricher.readMembers fs members path sources).reading.failure = none)
    (hdoc : (enricher.readMembers fs members path sources).document = some (.object enriched))
    (hw : (enricher.readPath fs path sources).1.Persisted) :
    ∃ content value φ, (enricher.readPath fs path sources).2.2.2.readText path = .ok content ∧
      Json.parse content = .ok value ∧
      value.collapse = .object (Json.mapFloatsMembers φ enriched) := by
  have hread := readDocument_of_parse enricher fs path sources hp hc
  cases hd : (enricher.readMembers fs members path sources).reading.isDirty with
  | false =>
    -- Nothing was written, and the members that were read are those of the document.
    have hmembers := document_of_not_isDirty enricher fs path sources h hd
    obtain rfl := Json.object.inj (Option.some.inj (hmembers.symm.trans hdoc))
    refine ⟨content, value, id, ?_, hp, ?_⟩
    · rw [(readPath_of_not_isDirty enricher fs sources ht (hread ▸ hd)).2, ht]
    · rw [hc, ← Json.mapFloats, Json.mapFloats_id]
  | true =>
    have hwithin : (Json.object members).Within Json.Rereads Json.maxDepth :=
      hc ▸ Json.within_rereads_collapse hp
    have hk : (Json.object members).DistinctKeys := hc ▸ Json.distinctKeys_collapse value
    obtain ⟨hwd, hkd⟩ := within_document enricher fs path sources h hwithin hk _ hdoc
    have hreplaced := hw ((isDirty_readPath enricher fs sources ht).trans (hread ▸ hd))
    refine ⟨_, _, Json.rereadFloat, readText_readPath_of_replaced enricher fs sources ht
      hreplaced (hread ▸ hdoc), Json.parse_pretty_reread hwd, ?_⟩
    rw [← Json.mapFloats]
    exact Json.collapse_of_distinctKeys (hkd.mapFloats Json.rereadFloat)

/-- What a reading of a bundle that can be read is followed by when the bundle is read again from
`sources₂`: the same files and the same findings as far as they are reported, with no file changed.
-/
structure ReadsAgain (sources₂ : SourceCache)
    (once again : Reading × Log × SourceCache × FileSystem) : Prop where
  failure : again.1.failure = none
  files : again.1.files = once.1.files
  unchanged : again.2.2.2 = once.2.2.2
  sources : ∃ earlier ⊆ enricher.sourcePaths once.1.files,
    again.2.2.1 = sources₂.after once.2.2.2 earlier
  findings : ∀ lookup, once.2.2.1.Agrees (enricher.sourcePaths once.1.files) lookup →
    again.2.2.1.Agrees (enricher.sourcePaths once.1.files) lookup →
      again.1.findings.map Finding.plain = once.1.findings.map Finding.plain

section Again

variable (ht : fs.readText path = .ok content) (hp : Json.parse content = .ok value)
  (hc : value.collapse = .object members)
  (h : (enricher.readMembers fs members path sources).reading.failure = none)
  (sources₂ : SourceCache)
include ht hp hc h

/-- If the hashes are in the file after the first reading, the second finds them there. -/
theorem readsAgain_of_replacing
    (hh : ∀ path source checker, enricher.hasher path source checker ≠ "")
    (hw : (enricher.readPath fs path sources).1.Persisted) :
    enricher.ReadsAgain sources₂ (enricher.readPath fs path sources)
      (enricher.readPath (enricher.readPath fs path sources).2.2.2 path sources₂) := by
  obtain ⟨replaced, hreading⟩ := readPath_of_readText enricher fs sources ht
  rw [readDocument_of_parse enricher fs path sources hp hc] at hreading
  obtain ⟨enriched, hdoc, -⟩ :=
    readMembers_readMembers enricher enricher fs fs path sources sources hh h
  obtain ⟨content₂, value₂, φ, ht₂, hp₂, hc₂⟩ := enricher.exists_reread ht hp hc h hdoc hw
  have hread₂ := readDocument_of_parse enricher (enricher.readPath fs path sources).2.2.2 path
    sources₂ hp₂ hc₂
  obtain ⟨hfailure, hfiles, hclean, hplain, hsources⟩ :=
    enricher.readMembers_mapFloats enricher hh h hdoc φ (enricher.readPath fs path sources).2.2.2
      sources₂
  rw [← hread₂] at hfailure hfiles hclean hplain hsources
  rw [← enricher.sources_readPath ht₂] at hsources
  obtain ⟨hagain, hfs⟩ := readPath_of_not_isDirty enricher
    (enricher.readPath fs path sources).2.2.2 sources₂ ht₂ hclean
  rw [← hagain] at hfailure hfiles hplain
  refine ⟨hfailure, ?_, hfs, ?_, ?_⟩ <;> rw [hreading]
  · exact hfiles
  · exact hsources
  · exact fun _ _ _ => hplain

/-- If no reading writes anything, the hashes are derived again. -/
theorem readsAgain_of_keeping
    (hkeeps : ∀ sources₂, (enricher.readPath fs path sources₂).2.2.2 = fs) :
    enricher.ReadsAgain sources₂ (enricher.readPath fs path sources)
      (enricher.readPath (enricher.readPath fs path sources).2.2.2 path sources₂) := by
  obtain ⟨files, items, hfinds⟩ := enricher.exists_finds h
  obtain ⟨replaced, honce⟩ := readPath_of_readText enricher fs sources ht
  obtain ⟨replaced₂, hagain⟩ := readPath_of_readText enricher fs sources₂ ht
  have hfirst := hfinds fs sources
  have hsecond := hfinds fs sources₂
  rw [← readDocument_of_parse enricher fs path sources hp hc] at hfirst
  rw [← readDocument_of_parse enricher fs path sources₂ hp hc] at hsecond
  have htable : (enricher.readPath fs path sources).1.files = files := by
    rw [honce, hfirst.table]
  rw [hkeeps sources]
  refine ⟨by rw [hagain, hsecond.failure], by rw [htable, hagain, hsecond.table],
    (hkeeps sources₂).trans (hkeeps sources).symm, ?_, ?_⟩ <;> rw [htable]
  · rw [hkeeps sources, enricher.sources_readPath ht]
    exact hsecond.sources
  · intro lookup ha ha₂
    rw [enricher.sources_readPath ht] at ha ha₂
    rw [honce, hagain, hfirst.findings lookup ha, hsecond.findings lookup ha₂]

end Again

/-- A bundle whose writes do not fail is read again after it was read, with the findings it had as
far as they are reported, and nothing is written. -/
theorem readPath_again (hcompletes : fs.Completes path)
    (hh : ∀ path source checker, enricher.hasher path source checker ≠ "")
    (h : (enricher.readPath fs path sources).1.failure = none) (sources₂ : SourceCache) :
    enricher.ReadsAgain sources₂ (enricher.readPath fs path sources)
      (enricher.readPath (enricher.readPath fs path sources).2.2.2 path sources₂) := by
  obtain ⟨content, ht⟩ : ∃ content, fs.readText path = .ok content := by
    cases ht : fs.readText path with
    | error e => simp [readPath, ht, Reading.failed] at h
    | ok content => exact ⟨content, rfl⟩
  obtain ⟨replaced, hreading⟩ := readPath_of_readText enricher fs sources ht
  rw [hreading] at h
  obtain ⟨value, members, hp, hc⟩ := readDocument_of_failure_eq_none enricher fs path sources h
  rw [readDocument_of_parse enricher fs path sources hp hc] at h
  obtain hw | hkeeps := enricher.persisted_or_keeps sources ht hcompletes
  · exact enricher.readsAgain_of_replacing ht hp hc h sources₂ hh hw
  · exact enricher.readsAgain_of_keeping ht hp hc h sources₂ hkeeps

end Findings.Enricher
