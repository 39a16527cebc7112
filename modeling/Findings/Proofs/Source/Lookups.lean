import Findings.Proofs.FileSystem.Spelling
import Findings.Proofs.Source.Cache

/-!
# Look-ups and the spelling of paths

A cache reads a file as the first look-up spells its path, and gives what this found to every other
spelling with the same components. Spellings with the same components may well differ in what is
read: `a.c` is a file, and `a.c/` is none.

* `answers`: what the look-ups of a sequence return.
* `AsFresh`: each returns what a cache without earlier look-ups would return.
* `asFresh_iff`: whatever the sequence, this is so iff no file that can be read shares its
  components with a path that asks for a directory, or with one that is too long.
-/

namespace Findings.SourceCache

open FileSystem (NamesFile)

/-- A look-up of a source. -/
inductive Lookup where
  | file (path : String)
  | content (path : String)
  | line (path : String) (number : Nat)

/-- What a look-up returns. -/
inductive Answer where
  | file (found : Option SourceFile)
  | text (found : Option String)

namespace Lookup

def path : Lookup → String
  | file path => path
  | content path => path
  | line path _ => path

/-- What a look-up returns, and the cache after it. -/
def run (cache : SourceCache) (fs : FileSystem) : Lookup → Answer × SourceCache
  | file path => ((cache.file fs path).map .file id)
  | content path => ((cache.content fs path).map .text id)
  | line path number => ((cache.line fs path number).map .text id)

/-- What a look-up returns from a cache without earlier ones. -/
def fresh (fs : FileSystem) (lookup : Lookup) : Answer :=
  (lookup.run .empty fs).1

/-- What a look-up returns of the file that it finds. -/
def answer (found : Option SourceFile) : Lookup → Answer
  | file _ => .file found
  | content _ => .text (found.map SourceFile.content)
  | line _ number => .text (found.bind fun file => file.line? number)

variable {cache : SourceCache} {fs : FileSystem}

theorem run_eq (lookup : Lookup) :
    lookup.run cache fs =
      (lookup.answer (cache.file fs lookup.path).1, (cache.file fs lookup.path).2) := by
  cases lookup <;> rfl

end Lookup

/-- What the look-ups of a sequence return. -/
def answers (fs : FileSystem) : List Lookup → SourceCache → List Answer
  | [], _ => []
  | lookup :: lookups, cache =>
    let (answer, cache) := lookup.run cache fs
    answer :: answers fs lookups cache

/-- Whatever sequence of look-ups is made of some paths, each returns what it would return if it was
the first. -/
def AsFresh (fs : FileSystem) (paths : List String) : Prop :=
  ∀ lookups : List Lookup, (∀ lookup ∈ lookups, lookup.path ∈ paths) →
    answers fs lookups .empty = lookups.map (Lookup.fresh fs)

variable {fs : FileSystem} {paths : List String} {cache : SourceCache}

theorem file_empty (path : String) : (SourceCache.empty.file fs path).1 = fetch fs path := rfl

theorem answers_of_looksUp (h : cache.LooksUp fs paths (fetch fs)) {lookups : List Lookup}
    (hp : ∀ lookup ∈ lookups, lookup.path ∈ paths) :
    answers fs lookups cache = lookups.map (Lookup.fresh fs) := by
  induction lookups generalizing cache with
  | nil => rfl
  | cons lookup lookups ih =>
    obtain ⟨hfirst, hp⟩ := List.forall_mem_cons.1 hp
    rw [answers, List.map_cons, Lookup.fresh, Lookup.run_eq, Lookup.run_eq, h.file hfirst]
    simp only [file_empty, ih (h.file_snd hfirst) hp]

/-- Look-ups do not depend on earlier ones iff paths that share an entry are read alike. -/
theorem asFresh_iff_fetch :
    AsFresh fs paths ↔ ∀ path ∈ paths, ∀ other ∈ paths,
      FilePath.components path = FilePath.components other → fetch fs path = fetch fs other := by
  constructor
  · intro h path hp other ho hc
    have ha := h [.file path, .file other] (by simp [Lookup.path, hp, ho])
    simp only [answers, Lookup.run_eq, Lookup.fresh, Lookup.answer, Lookup.path, List.map_cons,
      file_snd_file_eq, if_pos hc.symm, file_empty, List.cons.injEq, Answer.file.injEq] at ha
    exact ha.2.1
  · intro h lookups hp
    exact answers_of_looksUp (looksUp_iff.2 h) hp

/-! ## Spellings of a path -/

section

variable (hw : fs.FreeAbove fs.workingDirectory)
include hw

theorem namesFile_of_fetch {path : String} (h : (fetch fs path).isSome) :
    NamesFile path ∧ (FilePath.fileName? path).isSome := by
  unfold fetch at h
  split at h
  · rename_i content ht
    obtain ⟨bytes, hr, -⟩ := bind_eq_ok_iff.1 ht
    exact FileSystem.namesFile_of_read hw hr
  · cases h

/-- What can be read through one path is read through the others with its components, if these may
lead to files. -/
theorem fetch_eq_iff {path other : String}
    (hc : FilePath.components path = FilePath.components other) (hs : (fetch fs path).isSome) :
    fetch fs path = fetch fs other ↔ NamesFile other := by
  obtain ⟨hn, hname⟩ := namesFile_of_fetch hw hs
  constructor
  · intro he
    exact (namesFile_of_fetch hw (he ▸ hs)).1
  · intro ho
    have hr : fs.read path = fs.read other := FileSystem.read_congr hn ho hname hc
    rw [fetch, fetch, FileSystem.readText, FileSystem.readText, hr]

/-- Look-ups do not depend on earlier ones iff a path with the components of a file that can be read
may lead to a file itself. -/
theorem asFresh_iff_namesFile :
    AsFresh fs paths ↔ ∀ path ∈ paths, ∀ other ∈ paths,
      FilePath.components path = FilePath.components other → (fetch fs path).isSome →
        NamesFile other := by
  rw [asFresh_iff_fetch]
  constructor
  · intro h path hp other ho hc hs
    exact (fetch_eq_iff hw hc hs).1 (h path hp other ho hc)
  · intro h path hp other ho hc
    -- Only one of the two need be readable, whichever comes first.
    cases hs : fetch fs path with
    | some found =>
      have hsome : (fetch fs path).isSome := by simp [hs]
      rw [← hs]
      exact (fetch_eq_iff hw hc hsome).2 (h path hp other ho hc hsome)
    | none =>
      cases hs' : fetch fs other with
      | none => rfl
      | some found =>
        have hsome : (fetch fs other).isSome := by simp [hs']
        rw [← hs, ← hs']
        exact ((fetch_eq_iff hw hc.symm hsome).2 (h other ho path hp hc.symm hsome)).symm

end

/-- Look-ups do not depend on earlier ones iff paths with the same components are read alike. Where
the working directory is no file, nor below one, this means that no path of some paths that asks for
a directory, and none that is too long, has the components of one through which a file is read. -/
theorem asFresh_iff (fs : FileSystem) (paths : List String) :
    (AsFresh fs paths ↔ ∀ path ∈ paths, ∀ other ∈ paths,
      FilePath.components path = FilePath.components other → fetch fs path = fetch fs other) ∧
    (fs.FreeAbove fs.workingDirectory →
      (AsFresh fs paths ↔ ∀ path ∈ paths, ∀ other ∈ paths,
        FilePath.components path = FilePath.components other → (fetch fs path).isSome →
          NamesFile other)) :=
  ⟨asFresh_iff_fetch, asFresh_iff_namesFile⟩

/-- One source in a directory below the root. -/
def oneSource : FileSystem :=
  (FileSystem.empty []).addFile "src/a.c" "x\n".toUTF8

theorem freeAbove_oneSource : oneSource.FreeAbove oneSource.workingDirectory := by
  intro above ha content
  have hw : oneSource.workingDirectory = [] := by decide +kernel
  rw [hw, List.prefix_nil] at ha
  simp [ha, FileSystem.node?]

/-- Paths that go round the directory or repeat a slash may be mixed with others. -/
theorem asFresh_oneSource :
    oneSource.FreeAbove oneSource.workingDirectory ∧
      AsFresh oneSource
        ["src/a.c", "src//a.c", "src/./a.c", "src/../src/a.c", "src/", "src/b.c/"] :=
  ⟨freeAbove_oneSource, ((asFresh_iff oneSource _).2 freeAbove_oneSource).2 (by decide +kernel)⟩

/-- A slash at the end of the path that is looked up first hides the file for good. -/
theorem not_asFresh_slash :
    answers oneSource [.content "src/a.c/", .content "src/a.c"] .empty = [.text none, .text none] ∧
      Lookup.fresh oneSource (.content "src/a.c") = .text (some "x\n") ∧
      ¬ AsFresh oneSource ["src/a.c/", "src/a.c"] := by
  have hslash : fetch oneSource "src/a.c/" = none :=
    Option.isNone_iff_eq_none.1 (by decide +kernel)
  have hfile : (fetch oneSource "src/a.c").map SourceFile.content = some "x\n" := by
    decide +kernel
  have hc : FilePath.components "src/a.c" = FilePath.components "src/a.c/" := by decide
  refine ⟨?_, ?_, fun h => ?_⟩
  · simp only [answers, Lookup.run_eq, Lookup.answer, Lookup.path, file_snd_file_eq, if_pos hc,
      file_empty, hslash, Option.map_none]
  · simp only [Lookup.fresh, Lookup.run_eq, Lookup.answer, Lookup.path, file_empty, hfile]
  · have he := asFresh_iff_fetch.1 h "src/a.c" (by simp) "src/a.c/" (by simp) hc
    rw [he, hslash] at hfile
    cases hfile

end Findings.SourceCache
