import Findings.Proofs.Report.Turns
import Findings.Proofs.Suppression.Agree

/-!
# What a report draws on

A look-up fills the cache of sources, and a suppression that is added to the store may change a
file. So what a path gives may depend on both, and these are all that a report does to the sources,
the store and the files.

* `Resources.Later`: what becomes of them; `later_finding`: in a report too.
* `Resources.LooksUp`: a path gives what a function says, whatever becomes of them;
  `looksUp_of_apart`: so it is if no path leads to the file of the store.
-/

namespace Findings

/-- The sources read so far, the store, and the files. -/
structure Resources where
  sources : SourceCache
  store : Option SuppressionStore
  fs : FileSystem

namespace Resources

/-- What is left after a path was looked up. -/
def lookUp (now : Resources) (path : String) : Resources :=
  { now with sources := (now.sources.file now.fs path).2 }

/-- What is left after a suppression was added to the store, if there is one. -/
def add (now : Resources) (hash fileName comment : String) : Resources :=
  match now.store with
  | none => now
  | some store =>
    let (_, store, fs) := store.add now.fs hash fileName comment
    { now with store := some store, fs }

/-- What is left after some look-ups of paths and some additions to the store, in any order. -/
inductive Later (paths : List String) (start : Resources) : Resources → Prop
  | refl : Later paths start start
  | lookUp {now : Resources} (h : Later paths start now) {path : String} (hp : path ∈ paths) :
    Later paths start (now.lookUp path)
  | add {now : Resources} (h : Later paths start now) (hash fileName comment : String) :
    Later paths start (now.add hash fileName comment)

/-- Whatever was looked up and added before, each of the paths gives the file that `lookup` has for
it. -/
def LooksUp (start : Resources) (paths : List String) (lookup : String → Option SourceFile) :
    Prop :=
  ∀ now, Later paths start now → ∀ path ∈ paths, (now.sources.file now.fs path).1 = lookup path

/-- No path leads to the file that the store is written to. -/
def StoredApart (now : Resources) (paths : List String) : Prop :=
  ∀ store ∈ now.store, ∀ file ∈ store.writableFile?, ∀ path ∈ paths, now.fs.Apart path file

variable {start mid now : Resources} {paths : List String} {lookup : String → Option SourceFile}

theorem Later.trans (h : Later paths start mid) (h' : Later paths mid now) :
    Later paths start now := by
  induction h' with
  | refl => exact h
  | lookUp _ hp ih => exact ih.lookUp hp
  | add _ hash fileName comment ih => exact ih.add hash fileName comment

theorem Later.after (h : Later paths start now) {earlier : List String} (he : earlier ⊆ paths) :
    Later paths start { now with sources := now.sources.after now.fs earlier } := by
  induction earlier generalizing now with
  | nil => exact h
  | cons path earlier ih =>
    obtain ⟨hp, he⟩ := List.cons_subset.1 he
    exact ih (h.lookUp hp) he

theorem LooksUp.of_later (h : start.LooksUp paths lookup) (hl : Later paths start now) :
    now.LooksUp paths lookup :=
  fun _ hn => h _ (hl.trans hn)

theorem LooksUp.file (h : now.LooksUp paths lookup) {path : String} (hp : path ∈ paths) :
    (now.sources.file now.fs path).1 = lookup path :=
  h now .refl path hp

theorem LooksUp.agrees (h : now.LooksUp paths lookup) : now.sources.Agrees paths lookup := by
  intro path hp found hfound
  rw [← h.file hp, SourceCache.file, hfound]

theorem StoredApart.add (h : now.StoredApart paths) (hash fileName comment : String) :
    (now.add hash fileName comment).StoredApart paths := by
  cases hs : now.store with
  | none => simpa only [Resources.add, hs] using h
  | some store =>
    simp only [Resources.add, hs]
    rintro _ ⟨⟩ file hf path hp
    rw [SuppressionStore.writableFile?_add] at hf
    exact SuppressionStore.apart_add.2 (h store hs file hf path hp)

/-- What is added to a store elsewhere makes no difference to the look-ups. -/
theorem looksUp_add (ha : now.StoredApart paths) (h : now.sources.LooksUp now.fs paths lookup)
    (hash fileName comment : String) :
    let next := now.add hash fileName comment
    next.sources.LooksUp next.fs paths lookup := by
  intro next
  cases hs : now.store with
  | none => simpa only [next, Resources.add, hs] using h
  | some store =>
    simp only [next, Resources.add, hs]
    exact h.congr fun path hp => SourceCache.fetch_congr fun _ =>
      SuppressionStore.readText_add fun file hf => ha store hs file hf path hp

/-- Where paths that share an entry of the cache give the same, and the store is written elsewhere,
nothing makes a difference to the look-ups. -/
theorem looksUp_of_apart (ha : start.StoredApart paths)
    (h : start.sources.LooksUp start.fs paths lookup) : start.LooksUp paths lookup := by
  intro now hl
  have hnow : now.StoredApart paths ∧ now.sources.LooksUp now.fs paths lookup := by
    induction hl with
    | refl => exact ⟨ha, h⟩
    | lookUp _ hp ih => exact ⟨ih.1, ih.2.file_snd hp⟩
    | add _ hash fileName comment ih =>
      exact ⟨ih.1.add hash fileName comment, looksUp_add ih.1 ih.2 hash fileName comment⟩
  exact fun path hp => hnow.2.file hp

end Resources

/-! ## Passes -/

namespace Pass

/-- What a pass draws on. -/
def resources (pass : Pass) : Resources where
  sources := pass.formatter.sources
  store := pass.formatter.store
  fs := pass.fs

theorem resources_promote (pass : Pass) (found : InlineSuppression) :
    (pass.promote found).resources =
      pass.resources.add found.hash found.fileName found.comment := by
  cases hs : pass.formatter.store with
  | none => simp only [promote, resources, Resources.add, hs]
  | some store =>
    obtain ⟨log, hp⟩ := pass.store_promote hs found
    rw [hp]
    simp only [resources, Resources.add, hs]

end Pass

namespace Writing

variable (files : FileTable)

/-- On an unlimited sink no finding ends a report, and what it does to the sources, the store and
the files is to look up sources of the table and to add to the store. -/
theorem later_finding (pass : Pass) (hs : pass.sink.capacity = none) (finding : Finding) :
    ∃ after, (Writing.finding files finding).run pass = (.ok (), after) ∧
      after.sink.capacity = none ∧ after.formatter.enricher = pass.formatter.enricher ∧
      Resources.Later (pass.formatter.enricher.sourcePaths files) pass.resources
        after.resources := by
  obtain ⟨earlier, he, ⟨-, log, hshown⟩ | ⟨-, after, hhidden, hafter⟩⟩ :=
    writes_finding files pass finding
  · obtain ⟨sink, hsink, hrun⟩ := (hshown _ (SourceCache.agrees_known _ _)).2.run_of_unlimited hs
    exact ⟨_, hrun, hsink, rfl, .after .refl he⟩
  · obtain ⟨sink, hsink, hrun⟩ := (hhidden _ (SourceCache.agrees_known _ _)).2.run_of_unlimited hs
    obtain ⟨⟨store, hform⟩, -⟩ := of_hidden hafter
    have henricher : after.formatter.enricher = pass.formatter.enricher := by rw [hform]
    refine ⟨_, hrun, hsink, henricher, ?_⟩
    change Resources.Later _ _ after.resources
    obtain ⟨log, rfl⟩ | ⟨found, rfl⟩ := hafter
    · exact .after .refl he
    · rw [Pass.resources_promote]
      exact .add (.after .refl he) _ _ _

end Writing

end Findings
