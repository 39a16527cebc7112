import Findings.Proofs.Bundle.Filtering
import Findings.Proofs.Bundle.Shape

/-!
# The source line of a derived hash

A derived hash has the source line of the last step in it. The number of this line is taken from the
last step, but the text from the file of the diagnostic's own location. These may differ.

* `Basis.bytes_eq_iff_trimmedLine`: the bytes that are digested tell a source text by its line
  where the path ends, and by nothing else.
* `getElem?_readEntries`: an entry is read with the cache as the entries before it left it.
* `readDocument_derives`: each derived hash of a document, against the one that the file of the last
  step gives.
* `crossing_hash_ne`: a path that ends in another file.
-/

namespace Findings

namespace Identity

variable {path : List Step} {location : Location}

/-- With either of two source texts the same bytes are digested iff the line where the path ends is
the same in both. -/
theorem Basis.bytes_eq_iff_trimmedLine (h : anchor? path = some location)
    (source source' checker : String) :
    Basis.bytes ⟨path, source, checker⟩ = Basis.bytes ⟨path, source', checker⟩ ↔
      trimmedLine source location.line.toNat = trimmedLine source' location.line.toNat := by
  obtain ⟨last, hlast, hl⟩ := Option.bind_eq_some_iff.1 h
  simp only [Basis.bytes, fields_of_getLast? hlast hl, List.flatMap_cons, List.cons_append,
    List.append_cancel_left_eq, List.append_cancel_right_eq, Field.bytes_ofString_inj]

end Identity

namespace Enricher

variable (enricher : Enricher) (fs : FileSystem) {files : FileTable} (origin : String)
  (sources : SourceCache) {content : String}

/-! ## Entries and the cache -/

/-- Each entry gives its finding with the sources as the entries before it left them in the
cache. -/
theorem getElem?_readEntries (index : Nat) (items : List Json) {i : Nat} {raw : Json}
    (h : items[i]? = some raw) :
    let cache := (enricher.readEntries fs files origin index (items.take i) sources).2
    ((enricher.readEntries fs files origin index items sources).1.map Entry.finding)[i]? =
      some (enricher.findingAt (fun path => (cache.file fs path).1) files origin raw) := by
  induction items generalizing index sources i with
  | nil => cases h
  | cons item items ih =>
    rw [readEntries_cons, List.map_cons]
    cases i with
    | zero =>
      obtain rfl := Option.some.inj h
      obtain ⟨_, -, -, hfinding⟩ :=
        exists_lookup_readEntry enricher fs files origin index item sources
      exact congrArg some (hfinding _ fun path _ => rfl)
    | succ i => exact ih _ _ h

/-! ## Derived hashes -/

/-- The source text of a file in the table, as a cache has it. A source that cannot be read counts
as empty. -/
def textOf (files : FileTable) (sources : SourceCache) (file : FileIndex) : String :=
  ((sources.content fs (enricher.resolve ((files.get? file).getD ""))).1).getD ""

/-- The hash of a diagnostic is derived from its path and the text `own`. The same bytes are
digested with the text `last` iff both texts have the same line where the path ends, and then this
is the hash with `last`, too. -/
structure DerivedFrom (own last : String) (diagnostic : Diagnostic) (location : Location)
    (finding : Finding) : Prop where
  path_eq : finding.path = diagnostic.path
  derived : finding.hashOrigin = .derived
  hash_eq : finding.identityHash = Identity.pathShape diagnostic.path own finding.checkerName
  bytes_iff : Identity.Basis.bytes ⟨diagnostic.path, own, finding.checkerName⟩ =
      Identity.Basis.bytes ⟨diagnostic.path, last, finding.checkerName⟩ ↔
    Identity.trimmedLine own location.line.toNat = Identity.trimmedLine last location.line.toNat
  hash_eq_of_line : Identity.trimmedLine own location.line.toNat =
      Identity.trimmedLine last location.line.toNat →
    finding.identityHash = Identity.pathShape diagnostic.path last finding.checkerName

/-- An entry without a hash gives a finding whose hash is derived with the text of the file of its
own location. -/
theorem derivedFrom_of_findingAt (hh : enricher.hasher = Identity.pathShape) {raw : Json}
    {diagnostic : Diagnostic} {location : Location}
    (hd : Diagnostic.ofJson raw = .ok diagnostic) (hr : diagnostic.Resolves files)
    (hn : Identity.nonempty? diagnostic.identityHash = none)
    (ha : Identity.anchor? diagnostic.path = some location) :
    ∃ finding,
      enricher.findingAt (fun path => (sources.file fs path).1) files origin raw = some finding ∧
      DerivedFrom (enricher.textOf fs files sources diagnostic.primaryFile)
        (enricher.textOf fs files sources location.file) diagnostic location finding := by
  have hiff := Identity.Basis.bytes_eq_iff_trimmedLine ha
    (enricher.textOf fs files sources diagnostic.primaryFile)
    (enricher.textOf fs files sources location.file) (Identity.checkerName diagnostic origin).1
  simp only [findingAt, usable?_eq_some_iff.2 ⟨hd, hr⟩, hn, hh]
  exact ⟨_, rfl, rfl, rfl, rfl, hiff,
    fun hline => (Identity.Basis.pathShape_of_bytes_eq (hiff.2 hline) :)⟩

/-- Whatever has a hash derived in a document, it is derived with the text of the file of its own
location. The file of the last step would give the same bytes to digest iff it has the same line
there. Both are meant as the cache has them after the entries before. -/
theorem readDocument_derives (hh : enricher.hasher = Identity.pathShape)
    (h : (enricher.readDocument fs content origin sources).reading.failure = none) :
    let reading := (enricher.readDocument fs content origin sources).reading
    ∃ value, ∃ found : List (Option Finding), Json.parse content = .ok value ∧
      (value.collapse.get? "files").map FileTable.ofJson = some (.ok reading.files) ∧
      found.length = (entriesOf value.collapse).length ∧
      reading.findings = found.filterMap id ∧
      ∀ (i : Nat) raw diagnostic location, (entriesOf value.collapse)[i]? = some raw →
        Diagnostic.ofJson raw = .ok diagnostic → diagnostic.Resolves reading.files →
        Identity.nonempty? diagnostic.identityHash = none →
        Identity.anchor? diagnostic.path = some location →
        let cache := (enricher.readEntries fs reading.files origin 0
          ((entriesOf value.collapse).take i) sources).2
        let text := enricher.textOf fs reading.files cache
        ∃ finding, found[i]? = some (some finding) ∧
          DerivedFrom (text diagnostic.primaryFile) (text location.file) diagnostic location
            finding := by
  intro reading
  obtain ⟨value, members, table, hp, hc, hv, hf, hread, -, -⟩ :=
    exists_readEntries enricher fs origin sources h
  refine ⟨value, (enricher.readEntries fs reading.files origin 0 (entriesOf value.collapse)
      sources).1.map Entry.finding, hp, ?_, ?_, ?_, ?_⟩
  · rw [hc, Json.get?, hv, Option.map_some, hf]
  · rw [List.length_map]
    exact length_entries (readEntries_readsAs enricher fs origin 0 sources _)
  · rw [List.filterMap_map, Function.id_comp]
    exact congrArg Reading.findings hread
  · intro i raw diagnostic location hi hd hr hn ha cache text
    obtain ⟨finding, hfinding, hderived⟩ :=
      derivedFrom_of_findingAt enricher fs origin cache hh hd hr hn ha
    exact ⟨finding, (getElem?_readEntries enricher fs origin sources 0 _ hi).trans
      (congrArg some hfinding), hderived⟩

/-- A diagnostic in the first file of the table, whose path ends in the second. -/
def crossingDiagnostic : Diagnostic where
  location := ⟨1, 1, 0, []⟩
  path := [{ kind := .event, location := some ⟨1, 1, 1, []⟩, message := some "m" }]
  checkerName := some "c"

/-- A bundle with that diagnostic. -/
def crossing : Json :=
  .object [
    ("files", .array [.string "a.c", .string "b.c"]),
    ("diagnostics", .array [crossingDiagnostic.toJson])]

/-- The two files. -/
def crossingSources : SourceCache :=
  (SourceCache.empty.add "a.c" "x\n").add "b.c" "y\n"

theorem parse_crossing : Json.parse crossing.pretty = .ok crossing :=
  Json.parse_pretty_of_numbers_eq [1, 1, 0, 1, 1, 1] (by decide) rfl (by decide)

theorem reading_crossing :
    (Enricher.readDocument {} (FileSystem.empty []) crossing.pretty "b.json"
        crossingSources).reading =
      { files := ⟨["a.c", "b.c"]⟩
        findings := [findingOf crossingDiagnostic "b.json"
          (Identity.pathShape crossingDiagnostic.path "x\n" "c") .derived]
        isDirty := true } := by
  have hc : crossing.collapse = crossing := rfl
  have hd : Entries.get? "diagnostics" [("files", Json.array [.string "a.c", .string "b.c"]),
      ("diagnostics", Json.array [crossingDiagnostic.toJson])] =
        some (.array [crossingDiagnostic.toJson]) := rfl
  rw [readDocument_of_parse {} _ _ crossingSources parse_crossing hc,
    (readMembers_of_array {} _ "b.json" crossingSources rfl rfl hd).1]
  rfl

theorem readDocument_derives_crossing :
    let reading := (Enricher.readDocument {} (FileSystem.empty []) crossing.pretty "b.json"
      crossingSources).reading
    let text := Enricher.textOf {} (FileSystem.empty []) reading.files crossingSources
    reading.failure = none ∧ ∃ finding ∈ reading.findings,
      DerivedFrom (text 0) (text 1) crossingDiagnostic ⟨1, 1, 1, []⟩ finding := by
  intro reading text
  have hreading : reading = _ := reading_crossing
  have hf : reading.failure = none := by rw [hreading]
  have hfiles : reading.files = ⟨["a.c", "b.c"]⟩ := by rw [hreading]
  obtain ⟨value, found, hp, -, -, hfindings, hderives⟩ :=
    readDocument_derives {} (FileSystem.empty []) "b.json" crossingSources rfl hf
  obtain rfl := Except.ok.inj (parse_crossing.symm.trans hp)
  obtain ⟨finding, hfound, hderived⟩ := hderives 0 crossingDiagnostic.toJson crossingDiagnostic
    ⟨1, 1, 1, []⟩ rfl rfl (hfiles ▸ outside?_eq_none_iff.1 rfl) rfl rfl
  refine ⟨hf, finding, ?_, hderived⟩
  rw [hfindings]
  exact List.mem_filterMap.2 ⟨_, List.mem_of_getElem? hfound, rfl⟩

/-- The hash has the first line of the wrong file in it. -/
theorem crossing_hash_ne :
    let reading := (Enricher.readDocument {} (FileSystem.empty []) crossing.pretty "b.json"
      crossingSources).reading
    let text := Enricher.textOf {} (FileSystem.empty []) reading.files crossingSources
    reading.failure = none ∧ text 1 = "y\n" ∧
      (reading.findings.map Finding.identityHash =
        [Identity.pathShape crossingDiagnostic.path (text 0) "c"]) ∧
      Identity.pathShape crossingDiagnostic.path (text 0) "c" ≠
        Identity.pathShape crossingDiagnostic.path (text 1) "c" := by
  intro reading text
  have hreading : reading = _ := reading_crossing
  have hown : text 0 = "x\n" := by
    simp only [text, hreading]
    rfl
  have hlast : text 1 = "y\n" := by
    simp only [text, hreading]
    rfl
  rw [hown, hlast, hreading]
  exact ⟨rfl, rfl, rfl, by decide +kernel⟩

end Enricher

end Findings
