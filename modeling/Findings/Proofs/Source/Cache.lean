import Findings.Source.Cache

/-!
# Look-ups that do not depend on their order

Paths with the same components share an entry of the cache, so what a path gives may depend on
which of them was looked up first. Where it does not, the cache stands for a function of the path.

* `file_snd_file_eq`: what a path gives after another one was looked up.
* `LooksUp`: whatever is looked up before, a path gives what a function says.
* `looksUp_iff`: this is so iff paths with the same components give the same.
* `LooksUp.congr`: it stays so where the sources stay.
* `Agrees`: a function says what a cache has. One that agrees with the cache after some look-ups
  gave all of these beforehand (`Agrees.file`), and one that was looked up agrees
  (`LooksUp.agrees`).
-/

namespace Findings.SourceCache

variable (cache : SourceCache) (fs : FileSystem)

/-- The cache after some paths were looked up. -/
def after (earlier : List String) : SourceCache :=
  earlier.foldl (fun cache path => (cache.file fs path).2) cache

/-- Whichever of the paths are looked up before, each gives the file that `lookup` has for it. -/
def LooksUp (paths : List String) (lookup : String → Option SourceFile) : Prop :=
  ∀ earlier ⊆ paths, ∀ path ∈ paths, ((cache.after fs earlier).file fs path).1 = lookup path

theorem after_cons (path : String) (earlier : List String) :
    cache.after fs (path :: earlier) = (cache.file fs path).2.after fs earlier :=
  rfl

/-- A look-up changes what a path gives only if the two share an entry. -/
theorem file_snd_file_eq (path other : String) :
    ((cache.file fs path).2.file fs other).1 =
      if FilePath.components other = FilePath.components path then (cache.file fs path).1
      else (cache.file fs other).1 := by
  cases hg : Entries.get? (FilePath.components path) cache.entries with
  | some found =>
    have hsame : (cache.file fs path).2 = cache := by simp only [file, hg]
    rw [hsame]
    split
    · rename_i he
      simp [file, he, hg]
    · rfl
  | none =>
    split
    · rename_i he
      simp only [file, hg, he, Entries.get?_set_self]
    · rename_i hne
      simp only [file, hg, Entries.get?_set_of_ne hne]
      split <;> rfl

variable {cache fs} {paths : List String} {lookup : String → Option SourceFile}

theorem LooksUp.file (h : cache.LooksUp fs paths lookup) {path : String} (hp : path ∈ paths) :
    (cache.file fs path).1 = lookup path :=
  h [] (List.nil_subset _) path hp

theorem LooksUp.file_snd (h : cache.LooksUp fs paths lookup) {path : String} (hp : path ∈ paths) :
    (cache.file fs path).2.LooksUp fs paths lookup :=
  fun earlier he => h (path :: earlier) (List.cons_subset.2 ⟨hp, he⟩)

/-- What the paths give now, they give later, if those that share an entry agree. -/
theorem file_after (h : ∀ path ∈ paths, ∀ other ∈ paths,
      FilePath.components path = FilePath.components other →
        (cache.file fs path).1 = (cache.file fs other).1)
    {earlier : List String} (he : earlier ⊆ paths) {path : String} (hp : path ∈ paths) :
    ((cache.after fs earlier).file fs path).1 = (cache.file fs path).1 := by
  induction earlier generalizing cache with
  | nil => rfl
  | cons first earlier ih =>
    obtain ⟨hf, he⟩ := List.cons_subset.1 he
    -- One look-up changes nothing that the paths give, so they still agree after it.
    have step {other : String} (ho : other ∈ paths) :
        ((cache.file fs first).2.file fs other).1 = (cache.file fs other).1 := by
      rw [file_snd_file_eq]
      split
      · rename_i hc
        exact h first hf other ho hc.symm
      · rfl
    rw [after_cons, ih (fun p hp q hq hc => ?_) he, step hp]
    rw [step hp, step hq]
    exact h p hp q hq hc

theorem looksUp_iff :
    cache.LooksUp fs paths (fun path => (cache.file fs path).1) ↔
      ∀ path ∈ paths, ∀ other ∈ paths, FilePath.components path = FilePath.components other →
        (cache.file fs path).1 = (cache.file fs other).1 := by
  constructor
  · intro h path hp other ho hc
    have hl := h [path] (List.cons_subset.2 ⟨hp, List.nil_subset _⟩) other ho
    change ((cache.file fs path).2.file fs other).1 = _ at hl
    rwa [file_snd_file_eq, if_pos hc.symm] at hl
  · intro h earlier he path hp
    exact file_after h he hp

/-! ## Other file systems -/

variable {fs' : FileSystem}

/-- What is fetched from a path depends only on the text that is read there. -/
theorem fetch_congr {path : String}
    (h : ∀ text, fs'.readText path = .ok text ↔ fs.readText path = .ok text) :
    fetch fs' path = fetch fs path := by
  unfold fetch
  cases hr : fs.readText path with
  | ok text => rw [(h text).2 hr]
  | error e =>
    cases hr' : fs'.readText path with
    | error e => rfl
    | ok text => exact absurd ((h text).1 hr') (by simp [hr])

theorem file_congr {path : String} (h : fetch fs' path = fetch fs path) (cache : SourceCache) :
    cache.file fs' path = cache.file fs path := by
  unfold file
  rw [h]

/-- The file system may change where no source is. -/
theorem LooksUp.congr (h : cache.LooksUp fs paths lookup)
    (hf : ∀ path ∈ paths, fetch fs' path = fetch fs path) : cache.LooksUp fs' paths lookup := by
  have hafter (earlier : List String) (he : earlier ⊆ paths) (cache : SourceCache) :
      cache.after fs' earlier = cache.after fs earlier := by
    induction earlier generalizing cache with
    | nil => rfl
    | cons first earlier ih =>
      obtain ⟨hfirst, he⟩ := List.cons_subset.1 he
      rw [after_cons, after_cons, file_congr (hf first hfirst), ih he]
  intro earlier he path hp
  rw [hafter earlier he, file_congr (hf path hp)]
  exact h earlier he path hp

/-! ## What a cache has -/

/-- Whether `lookup` gives for each of the paths what the cache has for it, if it has anything. -/
def Agrees (cache : SourceCache) (paths : List String) (lookup : String → Option SourceFile) :
    Prop :=
  ∀ path ∈ paths, ∀ found,
    Entries.get? (FilePath.components path) cache.entries = some found → lookup path = found

/-- What the cache has for a path. -/
def known (cache : SourceCache) (path : String) : Option SourceFile :=
  (Entries.get? (FilePath.components path) cache.entries).join

theorem agrees_known (cache : SourceCache) (paths : List String) :
    cache.Agrees paths cache.known := by
  intro path _ found hfound
  rw [known, hfound]
  rfl

theorem after_append (earlier later : List String) :
    cache.after fs (earlier ++ later) = (cache.after fs earlier).after fs later :=
  List.foldl_append

theorem LooksUp.after (h : cache.LooksUp fs paths lookup) {earlier : List String}
    (he : earlier ⊆ paths) : (cache.after fs earlier).LooksUp fs paths lookup := by
  intro later hl
  rw [← after_append]
  exact h _ (List.append_subset.2 ⟨he, hl⟩)

/-- What is looked up is in the cache. -/
theorem get?_file_snd (path : String) :
    Entries.get? (FilePath.components path) (cache.file fs path).2.entries =
      some (cache.file fs path).1 := by
  cases h : Entries.get? (FilePath.components path) cache.entries <;> simp [file, h]

/-- What is in the cache stays there. -/
theorem get?_file_snd_of_eq_some {key : List FilePath.Component} {found : Option SourceFile}
    (h : Entries.get? key cache.entries = some found) (path : String) :
    Entries.get? key (cache.file fs path).2.entries = some found := by
  cases hp : Entries.get? (FilePath.components path) cache.entries with
  | some known => simpa only [file, hp] using h
  | none =>
    have hne : key ≠ FilePath.components path := by
      rintro rfl
      rw [h] at hp
      cases hp
    simpa only [file, hp, Entries.get?_set_of_ne hne] using h

theorem get?_after_of_eq_some {key : List FilePath.Component} {found : Option SourceFile}
    (h : Entries.get? key cache.entries = some found) (earlier : List String) :
    Entries.get? key (cache.after fs earlier).entries = some found := by
  induction earlier generalizing cache with
  | nil => exact h
  | cons path earlier ih => exact ih (get?_file_snd_of_eq_some h path)

theorem Agrees.of_after {earlier : List String}
    (h : (cache.after fs earlier).Agrees paths lookup) : cache.Agrees paths lookup :=
  fun path hp found hfound => h path hp found (get?_after_of_eq_some hfound earlier)

/-- A function that agrees with the cache after a look-up has given what was looked up. -/
theorem Agrees.file {path : String} (h : (cache.file fs path).2.Agrees paths lookup)
    (hp : path ∈ paths) : (cache.file fs path).1 = lookup path :=
  (h path hp _ (get?_file_snd path)).symm

/-- What the paths are looked up to be agrees with the cache at any time. -/
theorem LooksUp.agrees (h : cache.LooksUp fs paths lookup) {earlier : List String}
    (he : earlier ⊆ paths) : (cache.after fs earlier).Agrees paths lookup := by
  intro path hp found hfound
  rw [← h earlier he path hp, SourceCache.file, hfound]

end Findings.SourceCache
