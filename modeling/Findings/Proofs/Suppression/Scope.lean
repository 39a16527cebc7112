import Findings.Bundle.Enrichment
import Findings.Proofs.FilePath.LastName
import Findings.Proofs.Suppression.Marker
import Findings.Suppression.Store

/-!
# What a suppression is scoped by

A store sees of a path its last name alone. A suppression that was found below one source root
holds below every other, and in a report that spells the directories in another way.

* `basename_resolve`: the source of an entry goes by the name of the entry.
* `covers_of_inlineSuppression`: what is stored for a marker covers the entry that it was found for.
* `isSuppressed_congr_iff`: stores tell two paths apart exactly if their names differ.
* `scopesByName`: the name of a path, and what it does not depend on.
-/

namespace Findings

open FilePath

variable {path : String}

namespace Enricher

/-- The slashes that a source root takes off an entry are not part of its name. -/
theorem basename_dropWhile_slash (path : String) :
    basename (.ofList (path.toList.dropWhile (· = '/'))) = basename path := by
  have hslashes : ∀ c ∈ path.toList.takeWhile (· = '/'), isSeparator c = true := by
    intro c hc
    have hslash : c = '/' := by simpa using List.mem_takeWhile_imp hc
    rw [hslash]
    rfl
  rw [basename_eq_basename_iff, String.toList_ofList,
    ← basenameChars_seps_append hslashes, List.takeWhile_append_dropWhile]

theorem basename_resolve (enricher : Enricher) (h : HasName path) :
    basename (enricher.resolve path) = basename path := by
  unfold resolve
  cases enricher.sourceRoot with
  | none => rfl
  | some root =>
    have hname := basename_dropWhile_slash path
    have hrest : HasName (.ofList (path.toList.dropWhile (· = '/'))) := by
      rw [hasName_iff, basename_eq_basename_iff.1 hname]
      exact hasName_iff.1 h
    exact (basename_join hrest root).trans hname

end Enricher

/-- A marker is looked for in the source of an entry, and what it asks for is stored under the name
of the source. It is found again under the entry itself. -/
theorem covers_of_inlineSuppression {enricher : Enricher} {sources : SourceCache} {fs : FileSystem}
    {line : Nat} {hash checker : String} {found : InlineSuppression} (hpath : HasName path)
    (h : (inlineSuppression sources fs (enricher.resolve path) line hash checker).1 = some found) :
    (Suppression.ofComment found.hash (basename found.fileName) found.comment).covers hash
      (basename path) = true := by
  obtain ⟨-, -, marker, -, rfl⟩ := inlineSuppression_eq_some_iff.1 h
  have hname : basename (basename (enricher.resolve path)) = basename path :=
    (basename_basename _).trans (enricher.basename_resolve hpath)
  exact Suppression.covers_iff.2 ⟨rfl, hname⟩

namespace SuppressionStore

theorem isSuppressed_congr_iff {other : String} :
    (∀ (store : SuppressionStore) (hash : String),
      store.isSuppressed hash other = store.isSuppressed hash path) ↔
      basename other = basename path := by
  constructor
  · intro h
    have hself : isSuppressed ⟨none, false, [⟨"", basename path, ""⟩]⟩ "" path = true := by
      simp [isSuppressed]
    rw [← h] at hself
    have hname : basename path = basename other := by simpa [isSuppressed] using hself
    exact hname.symm
  · intro h store hash
    rw [isSuppressed, isSuppressed, h]

/-- What the stores see of the path of a file. -/
structure ScopesByName (path : String) : Prop where
  /-- It is the last name in the path, or nothing if the path has none. -/
  lastName (name : String) : name = basename path ↔ IsLastName path.toList name.toList
  /-- A name goes by itself. -/
  idempotent : basename (basename path) = basename path
  /-- Two paths of one name get the same verdicts, and no others do. -/
  verdicts (other : String) :
    (∀ (store : SuppressionStore) (hash : String),
      store.isSuppressed hash other = store.isSuppressed hash path) ↔
      basename other = basename path
  /-- A directory in front, with either separator, and a source root change neither the name nor a
  verdict, as long as the path has a name, and no longer. -/
  moved : HasName path ↔
    ∀ (dir : String) (enricher : Enricher),
      ∀ other ∈ [dir ++ "/" ++ path, dir ++ "\\" ++ path, enricher.resolve path],
        basename other = basename path ∧
          ∀ (store : SuppressionStore) (hash : String),
            store.isSuppressed hash other = store.isSuppressed hash path

/-- Every path goes by its last name, whatever directories and source roots are put in front. -/
theorem scopesByName (path : String) : ScopesByName path where
  lastName name := by
    rw [isLastName_iff, ← basename_eq, String.toList_inj]
  idempotent := basename_basename path
  verdicts _ := isSuppressed_congr_iff
  moved := by
    constructor
    · intro h dir enricher other hother
      have hname : basename other = basename path := by
        simp only [List.mem_cons, List.not_mem_nil, or_false] at hother
        obtain rfl | rfl | rfl := hother
        · exact basename_append_slash h dir
        · exact basename_append_backslash h dir
        · exact enricher.basename_resolve h
      exact ⟨hname, isSuppressed_congr_iff.2 hname⟩
    · intro h
      by_contra hn
      have hbelow : basename ("x" ++ "/" ++ path) = basename path :=
        (h "x" {} _ List.mem_cons_self).1
      have hnil : basenameChars path.toList = [] := by simpa [hasName_iff] using hn
      rw [basename_append_slash_of_not hn, basename_eq_basename_iff, hnil] at hbelow
      exact absurd hbelow (by decide)

end SuppressionStore

end Findings
