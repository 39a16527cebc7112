import Findings.Proofs.Suppression.Addition

/-!
# Stores and files elsewhere

A store reads and writes its backing file only. What another file holds makes no difference to it,
and what it writes changes no path and no text elsewhere.

* `SuppressionStore.add_agree`: an addition does the same to file systems that differ in another
  file.
* `SuppressionStore.add_cases`: what an addition changes of the file system; `avoids_add`,
  `apart_add`, `readText_add`: nothing that paths elsewhere depend on.
-/

namespace Findings

open FileSystem (AgreeBut)

variable {place : Place} {fs fs' : FileSystem} {path : String}

theorem SuppressionFile.load_agree (h : AgreeBut place fs fs') (ha : fs.Avoids path place) :
    load fs path = load fs' path := by
  unfold load
  rw [h.readText ha]

theorem SuppressionFile.update_agree (h : AgreeBut place fs fs') (ha : fs.Avoids path place)
    (change : List Suppression → Option (List Suppression)) :
    (update fs path change).1 = (update fs' path change).1 ∧
      AgreeBut place (update fs path change).2 (update fs' path change).2 := by
  unfold update
  obtain ⟨hresult, hafter⟩ := h.rewrite ha true (revise path change)
  revert hresult hafter
  rcases fs.rewrite path true (revise path change) with ⟨result, after⟩
  rcases fs'.rewrite path true (revise path change) with ⟨result', after'⟩
  rintro rfl hafter
  cases result with
  | ok result => exact ⟨rfl, hafter⟩
  | error e => exact ⟨rfl, hafter⟩

theorem SuppressionFile.update_cases (fs : FileSystem) (path : String)
    (change : List Suppression → Option (List Suppression)) :
    (update fs path change).2 = fs ∨
      ∃ target content, fs.resolve path = .ok target ∧ fs.node? target.place ≠ some .directory ∧
        (update fs path change).2 = fs.put target.place (.file content) := by
  have hfs : (update fs path change).2 = (fs.rewrite path true (revise path change)).2 := by
    unfold update
    rcases fs.rewrite path true (revise path change) with ⟨result | e, after⟩ <;> rfl
  rw [hfs]
  exact fs.rewrite_cases path true _

/-- A file that may be written may still be written after an update. -/
theorem SuppressionFile.accepts_update (h : fs.Accepts path)
    (change : List Suppression → Option (List Suppression)) :
    (update fs path change).2.Accepts path := by
  obtain hu | ⟨target, content, -, hn, hu⟩ := update_cases fs path change
  · rwa [hu]
  · rw [hu]
    exact h.put hn

namespace SuppressionStore

variable (store : SuppressionStore) (hash fileName comment : String)

theorem writableFile?_reload : (store.reload fs).2.writableFile? = store.writableFile? := by
  unfold reload
  split
  · rfl
  · split <;> rfl

theorem writableFile?_add :
    (store.add fs hash fileName comment).2.1.writableFile? = store.writableFile? := by
  unfold add change
  split
  · rfl
  · split
    · rfl
    · exact writableFile?_reload store

theorem backing_of_writableFile? {file : String} (hw : store.writableFile? = some file) :
    store.backing = some file := by
  unfold writableFile? at hw
  split at hw
  · exact hw
  · cases hw

variable (fs) in
/-- An addition leaves the file system as it is or puts a file where the backing file is. -/
theorem add_cases :
    (store.add fs hash fileName comment).2.2 = fs ∨
      ∃ file ∈ store.writableFile?, ∃ target content, fs.resolve file = .ok target ∧
        fs.node? target.place ≠ some .directory ∧
        (store.add fs hash fileName comment).2.2 = fs.put target.place (.file content) := by
  cases hw : store.writableFile? with
  | none => exact .inl (by simp only [add, change, hw])
  | some file =>
    have hc := SuppressionFile.update_cases fs file
      (SuppressionFile.withRecord (.ofComment hash (FilePath.basename fileName) comment))
    rw [add_of_writableFile? store hash fileName comment hw]
    unfold SuppressionFile.append
    revert hc
    rcases SuppressionFile.update fs file _ with ⟨e | changed, after⟩
    all_goals
      rintro (hc | ⟨target, content, ht, hn, hc⟩)
      · exact .inl hc
      · exact .inr ⟨file, rfl, target, content, ht, hn, hc⟩

section Elsewhere

variable {store hash fileName comment}

theorem avoids_add :
    (store.add fs hash fileName comment).2.2.Avoids path place ↔ fs.Avoids path place := by
  obtain hc | ⟨_, -, target, content, -, hn, hc⟩ := store.add_cases fs hash fileName comment
  · rw [hc]
  · rw [hc, FileSystem.avoids_put_iff hn]

theorem completes_add (hc : fs.Completes path) :
    (store.add fs hash fileName comment).2.2.Completes path := by
  obtain hs | ⟨_, -, target, content, -, hn, hs⟩ := store.add_cases fs hash fileName comment
  · rwa [hs]
  · rw [hs]
    exact hc.put hn

theorem apart_add {other : String} :
    (store.add fs hash fileName comment).2.2.Apart path other ↔ fs.Apart path other := by
  obtain hc | ⟨_, -, target, content, -, hn, hc⟩ := store.add_cases fs hash fileName comment
  · rw [hc]
  · rw [hc, FileSystem.apart_put_iff hn]

/-- What a path gives that does not lead to the backing file stays. -/
theorem readText_add (ha : ∀ file ∈ store.writableFile?, fs.Apart path file) {text : String} :
    (store.add fs hash fileName comment).2.2.readText path = .ok text ↔
      fs.readText path = .ok text := by
  obtain hc | ⟨file, hf, target, content, ht, hn, hc⟩ := store.add_cases fs hash fileName comment
  · rw [hc]
  · rw [hc, FileSystem.readText_put_iff hn (ha file hf target ht)]

end Elsewhere

/-- An addition does the same to file systems that differ in a file which is not the backing one. -/
theorem add_agree (h : AgreeBut place fs fs')
    (ha : ∀ file ∈ store.writableFile?, fs.Avoids file place) :
    (store.add fs hash fileName comment).2.1 = (store.add fs' hash fileName comment).2.1 ∧
      AgreeBut place (store.add fs hash fileName comment).2.2
        (store.add fs' hash fileName comment).2.2 := by
  cases hw : store.writableFile? with
  | none =>
    simp only [add, change, hw]
    exact ⟨trivial, h⟩
  | some file =>
    have ha := ha file hw
    have hc := SuppressionFile.update_cases fs file
      (SuppressionFile.withRecord (.ofComment hash (FilePath.basename fileName) comment))
    obtain ⟨hresult, hafter⟩ := SuppressionFile.update_agree h ha
      (SuppressionFile.withRecord (.ofComment hash (FilePath.basename fileName) comment))
    rw [add_of_writableFile? store hash fileName comment hw,
      add_of_writableFile? store hash fileName comment hw]
    unfold SuppressionFile.append
    revert hc hresult hafter
    rcases SuppressionFile.update fs file _ with ⟨result, after⟩
    rcases SuppressionFile.update fs' file _ with ⟨result', after'⟩
    rintro hc rfl hafter
    cases result with
    | error e => exact ⟨rfl, hafter⟩
    | ok changed =>
      -- The backing file is still another one after it was written.
      have haway : after.Avoids file place := by
        rcases hc with rfl | ⟨target, content, -, hn, rfl⟩
        · exact ha
        · exact (FileSystem.avoids_put_iff hn).2 ha
      refine ⟨?_, hafter⟩
      simp only [reload, backing_of_writableFile? store hw,
        SuppressionFile.load_agree hafter haway]

end SuppressionStore

end Findings
