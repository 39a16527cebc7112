import Findings.FilePath
import Findings.Proofs.Text
import Mathlib.Data.List.TakeWhile

/-!
# The names of files

* `basename_basename`: the name of a file is its own name.
* `filterMap_name?_components`, `contains_nul_iff`: what the components of a path keep of its
  pieces, and of its characters.
* `fileName?_of_pieces`: a path that ends in a name that leads down has this as its file name.
-/

namespace Findings.FilePath

theorem isSeparator_of_mem_basenameChars {cs : List Char} {c : Char} (h : c ∈ basenameChars cs) :
    isSeparator c = false := by
  have hm := List.mem_takeWhile_imp (List.mem_reverse.1 h)
  simpa using hm

/-- A text without separators is a name. -/
theorem basenameChars_of_forall {cs : List Char} (h : ∀ c ∈ cs, isSeparator c = false) :
    basenameChars cs = cs := by
  have hr : ∀ c ∈ cs.reverse, isSeparator c = false := fun c hc => h c (List.mem_reverse.1 hc)
  have hd : cs.reverse.dropWhile isSeparator = cs.reverse := by
    cases hc : cs.reverse with
    | nil => rfl
    | cons c rest => rw [List.dropWhile_cons_of_neg (by simp [hr c (by simp [hc])])]
  rw [basenameChars, hd, List.takeWhile_eq_self_iff.2 fun c hc => by simp [hr c hc],
    List.reverse_reverse]

theorem basename_basename (path : String) : basename (basename path) = basename path := by
  have hname : basenameChars (basenameChars path.toList) = basenameChars path.toList :=
    basenameChars_of_forall fun c hc => isSeparator_of_mem_basenameChars hc
  rw [basename, basename_eq, hname]
  rfl

/-! ## Pieces and components -/

variable {path name : String}

/-- The name that a part of a path is followed by. -/
def Component.name? : Component → Option String
  | .root => none
  | .current => some "."
  | .parent => some ".."
  | .normal name => some name

/-- The pieces that are names of a directory or a file. -/
def counts (piece : String) : Bool :=
  piece ≠ "" && piece ≠ "."

theorem Component.ofPiece?_eq (piece : String) :
    ofPiece? piece =
      if counts piece then some (if piece = ".." then .parent else .normal piece) else none := by
  unfold ofPiece? counts
  by_cases he : piece = ""
  · simp [he]
  by_cases hd : piece = "."
  · simp [hd]
  · simp [he, hd, apply_ite]

theorem Component.ofPiece?_bind_name? (piece : String) :
    (ofPiece? piece).bind name? = if counts piece then some piece else none := by
  rw [ofPiece?_eq]
  split
  · by_cases hu : piece = ".." <;> simp [hu, name?]
  · rfl

theorem Component.ofPiece?_ne_root (piece : String) : ofPiece? piece ≠ some .root := by
  rw [ofPiece?_eq]
  split
  · by_cases hu : piece = ".." <;> simp [hu]
  · nofun

theorem filterMap_name? (pieces : List String) :
    (pieces.filterMap Component.ofPiece?).filterMap Component.name? = pieces.filter counts := by
  rw [List.filterMap_filterMap, ← List.filterMap_eq_filter]
  congr 1
  funext piece
  rw [Component.ofPiece?_bind_name?]
  rfl

/-- How a path starts that does not start with a name. -/
def startParts (path : String) : List Component :=
  if isAbsolute path then [.root] else if (pieces path).head? = some "." then [.current] else []

theorem components_eq (path : String) :
    components path = startParts path ++ (pieces path).filterMap Component.ofPiece? := rfl

theorem root_mem_components :
    .root ∈ components path ↔ isAbsolute path = true := by
  have hp : .root ∉ (pieces path).filterMap Component.ofPiece? := by
    simp only [List.mem_filterMap, not_exists, not_and]
    exact fun piece _ => Component.ofPiece?_ne_root piece
  rw [components_eq, List.mem_append, or_iff_left hp, startParts]
  cases isAbsolute path with
  | true => simp
  | false => by_cases hd : (pieces path).head? = some "." <;> simp [hd]

/-- A path with an empty piece in front of another starts at the root. -/
theorem isAbsolute_of_pieces {rest : List String} (h : pieces path = "" :: rest)
    (hne : rest ≠ []) : isAbsolute path = true := by
  unfold pieces at h
  cases hcs : path.toList with
  | nil =>
    rw [hcs] at h
    exact absurd (List.cons_eq_cons.1 h).2.symm hne
  | cons c cs =>
    rw [hcs, Text.splitAt] at h
    split at h
    · rename_i hc
      simp [isAbsolute, hcs, hc]
    · split at h <;> simp at h

/-- The names that the components of a path are followed by. -/
theorem filterMap_name?_components (path : String) :
    (components path).filterMap Component.name? =
      (startParts path).filterMap Component.name? ++ (pieces path).filter counts := by
  rw [components_eq, List.filterMap_append, filterMap_name?]

theorem filterMap_name?_startParts (path : String) :
    (startParts path).filterMap Component.name? =
      if isAbsolute path = false ∧ (pieces path).head? = some "." then ["."] else [] := by
  unfold startParts
  cases isAbsolute path with
  | true => rfl
  | false => by_cases hd : (pieces path).head? = some "." <;> simp [hd, Component.name?]

theorem any_filter_counts {p : String → Bool} (he : p "" = false) (hd : p "." = false)
    (pieces : List String) : (pieces.filter counts).any p = pieces.any p := by
  rw [List.any_filter]
  refine List.any_congr rfl fun piece => ?_
  by_cases h : piece = "" ∨ piece = "."
  · obtain rfl | rfl := h <;> simp [he, hd]
  · have hc : counts piece = true := by simpa [counts, not_or] using h
    rw [hc, Bool.true_and]

/-- The components of a path have all its characters but slashes and dots. -/
theorem contains_nul_iff (path : String) :
    ((components path).filterMap Component.name?).any (·.toList.contains '\x00') =
      path.toList.contains '\x00' := by
  have hstart : ((startParts path).filterMap Component.name?).any (·.toList.contains '\x00') =
      false := by
    rw [filterMap_name?_startParts]
    split <;> decide
  rw [filterMap_name?_components, List.any_append, hstart, Bool.false_or,
    any_filter_counts (by decide) (by decide), Bool.eq_iff_iff, pieces]
  simp only [List.any_map, List.any_eq_true, Function.comp, String.toList_ofList,
    List.contains_iff_mem]
  exact Text.exists_mem_splitAt_iff (by decide)

theorem exists_pieces_eq (path : String) : ∃ init last, pieces path = init ++ [last] := by
  have hne : pieces path ≠ [] := by simp [pieces, Text.splitAt_ne_nil]
  exact ⟨_, _, (List.dropLast_append_getLast hne).symm⟩

theorem fileName?_of_pieces {init : List String} (hp : pieces path = init ++ [name])
    (hc : counts name = true) :
    fileName? path = if name = ".." then none else some name := by
  have ho := Component.ofPiece?_eq name
  rw [if_pos hc] at ho
  have hl : (components path).getLast? = some (if name = ".." then .parent else .normal name) := by
    rw [components_eq, hp, List.filterMap_append, List.filterMap_cons_some ho]
    simp [← List.append_assoc]
  rw [fileName?, hl]
  by_cases hd : name = ".."
  · simp only [if_pos hd]
  · simp only [if_neg hd]

theorem pieces_append_last {before last : List Char} (h : '/' ∉ last)
    (hp : path.toList = before ++ '/' :: last) :
    pieces path = pieces (.ofList before) ++ [.ofList last] := by
  rw [pieces, pieces, hp, String.toList_ofList, Text.splitAt_append_last h, List.map_append]
  rfl

/-- The last piece of a path is all of it, or what follows a slash. -/
theorem exists_of_getLast?_pieces {last : String} (h : (pieces path).getLast? = some last) :
    path = last ∨ ∃ before, path.toList = before ++ '/' :: last.toList := by
  rw [pieces, List.getLast?_map] at h
  obtain ⟨cs, hl, rfl⟩ := Option.map_eq_some_iff.1 h
  rw [String.toList_ofList]
  refine (Text.exists_of_getLast?_splitAt hl).imp_left fun hp => ?_
  rw [← hp, String.ofList_toList]

end Findings.FilePath
