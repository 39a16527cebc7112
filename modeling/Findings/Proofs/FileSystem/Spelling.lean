import Findings.Proofs.FilePath
import Findings.Proofs.FileSystem

/-!
# Paths that are spelled differently

A path is followed name by name as it is spelled, while its components leave out repeated slashes,
what stands at the end and most of the `.` in between. Both come to the same where the path ends in
the name of a file: from a directory, `.` leads nowhere else. Where it ends in a slash or in `.`, it
asks for a directory, and leads to no file.

* `resolve_eq_follow`: a path that may lead to a file is followed by its components alone.
* `namesFile_of_read`: no other path leads to a file.
* `read_congr`: paths with the same components lead to the same file, if both may lead to one.
-/

namespace Findings.FileSystem

open FilePath

variable {fs : FileSystem} {path other name : String} {here : Place} {names : List String}

/-- Whether a path may lead to a file: it does not end in a slash, nor in `.` after a slash, and it
is not too long. -/
def NamesFile (path : String) : Prop :=
  ¬ ['/'] <:+ path.toList ∧ ¬ ['/', '.'] <:+ path.toList ∧ path.utf8ByteSize ≤ maxPath

instance : DecidablePred NamesFile := fun _ => inferInstanceAs (Decidable (_ ∧ _ ∧ _))

/-- A path that may lead to a file does not end in a piece that is no name. -/
theorem NamesFile.counts_getLast (h : NamesFile path) {last : String}
    (hl : (pieces path).getLast? = some last) : counts last = true ∨ path = "" ∨ path = "." := by
  obtain ⟨hslash, hdot, -⟩ := h
  rw [or_iff_not_imp_left]
  intro hc
  have hvoid : last = "" ∨ last = "." := by
    simpa [counts, or_iff_not_imp_left] using hc
  obtain rfl | ⟨before, hp⟩ := exists_of_getLast?_pieces hl
  · exact hvoid
  · obtain rfl | rfl := hvoid
    · exact absurd ⟨before, hp.symm⟩ hslash
    · exact absurd ⟨before, hp.symm⟩ hdot

theorem NamesFile.pieces_eq (h : NamesFile path) (hn : fileName? path = some name) :
    ∃ init, pieces path = init ++ [name] ∧ counts name = true := by
  obtain ⟨init, last, hp⟩ := exists_pieces_eq path
  obtain hc | rfl | rfl := h.counts_getLast (by rw [hp, List.getLast?_concat])
  · rw [fileName?_of_pieces hp hc] at hn
    obtain rfl := Option.some.inj (Option.ite_none_left_eq_some.1 hn).2
    exact ⟨init, hp, hc⟩
  · cases hn
  · cases hn

/-! ## Following the components of a path -/

/-- After a name one is in a directory, or nowhere. -/
theorem enter_cons_congr {rest : List String}
    (h : ∀ next, fs.node? next = some .directory → fs.enter next names = fs.enter next rest) :
    fs.enter here (name :: names) = fs.enter here (name :: rest) := by
  rw [enter, enter]
  cases descend here name with
  | error e => rfl
  | ok next =>
    simp only [bind, Except.bind]
    cases hn : fs.node? next with
    | none => rfl
    | some node =>
      cases node with
      | file content => rfl
      | directory => exact h next hn

/-- From a directory, `.` leads nowhere else. -/
theorem enter_filter (h : fs.node? here = some .directory) (names : List String) :
    fs.enter here (names.filter (· ≠ ".")) = fs.enter here names := by
  induction names generalizing here with
  | nil => rfl
  | cons name names ih =>
    by_cases hd : name = "."
    · rw [List.filter_cons_of_neg (by simpa using hd), ih h, hd]
      simp only [enter, descend, if_pos, bind, Except.bind, h]
    · rw [List.filter_cons_of_pos (by simpa using hd)]
      exact enter_cons_congr fun next hn => ih hn

theorem enter_cons_filter (here : Place) (name : String) (names : List String) :
    fs.enter here (name :: names.filter (· ≠ ".")) = fs.enter here (name :: names) :=
  enter_cons_congr fun _ hn => enter_filter hn names

/-- Where the components of a path lead, the last of which is the name of a file. -/
def follow (fs : FileSystem) (parts : List Component) : Except FileError Target :=
  let names := parts.filterMap Component.name?
  if names.any (·.toList.contains '\x00') then .error .nulInPath
  else do
    let here ← fs.enter (if .root ∈ parts then [] else fs.workingDirectory) names.dropLast
    let place ← descend here (names.getLast?.getD "")
    .ok ⟨place, false⟩

theorem namesOf_of_pieces {init : List String} (hp : pieces path = init ++ [name])
    (hne : name ≠ "") : namesOf path = init.filter (· ≠ "") ++ [name] := by
  rw [namesOf, hp, List.filter_append, List.filter_cons_of_pos (by simpa using hne)]
  rfl

theorem filter_counts (pieces : List String) :
    pieces.filter counts = (pieces.filter (· ≠ "")).filter (· ≠ ".") := by
  rw [List.filter_filter]
  exact List.filter_congr fun piece _ => by simp [counts, Bool.and_comm]

/-- The components of a path lead on as its pieces do. -/
theorem enter_names {init : List String} (hp : pieces path = init ++ [name])
    (hc : counts name = true) :
    fs.enter (fs.startOf path)
        ((startParts path).filterMap Component.name? ++ init.filter counts) =
      fs.enter (fs.startOf path) (init.filter (· ≠ "")) := by
  rw [filterMap_name?_startParts, filter_counts]
  cases ha : isAbsolute path with
  | true =>
    have hs : fs.startOf path = [] := by simp [startOf, ha]
    rw [if_neg (by simp), List.nil_append, hs, enter_filter rfl]
  | false =>
    cases init with
    | nil =>
      have hd : name ≠ "." := by
        rintro rfl
        cases hc
      rw [hp]
      simp [hd]
    | cons first rest =>
      -- A relative path starts with a name, or with the `.` that is a component.
      have hne : first ≠ "" := by
        rintro rfl
        rw [isAbsolute_of_pieces hp (by simp)] at ha
        cases ha
      have hr : (first :: rest).filter (· ≠ "") = first :: rest.filter (· ≠ "") :=
        List.filter_cons_of_pos (by simpa using hne)
      rw [hr, ← enter_cons_filter, hp]
      by_cases hd : first = "."
      · simp [hd]
      · simp [hd]

theorem resolve_eq_follow (h : NamesFile path) (hn : (fileName? path).isSome) :
    fs.resolve path = fs.follow (components path) := by
  obtain ⟨name, hn⟩ := Option.isSome_iff_exists.1 hn
  obtain ⟨init, hp, hc⟩ := h.pieces_eq hn
  have hempty : path.isEmpty = false := by
    rw [Bool.eq_false_iff, Ne, String.isEmpty_iff]
    rintro rfl
    cases hn
  have hslash : path.toList.getLast? ≠ some '/' := by
    intro hl
    obtain ⟨before, hb⟩ := List.getLast?_eq_some_iff.1 hl
    exact h.1 ⟨before, hb.symm⟩
  have hnames := namesOf_of_pieces hp (by rintro rfl; cases hc)
  have hparts : (components path).filterMap Component.name? =
      (startParts path).filterMap Component.name? ++ init.filter counts ++ [name] := by
    rw [filterMap_name?_components, hp, List.filter_append, List.append_assoc]
    simp [hc]
  have hstart :
      (if .root ∈ components path then [] else fs.workingDirectory) = fs.startOf path := by
    simp only [root_mem_components, startOf]
  have hnul := contains_nul_iff path
  unfold resolve follow
  rw [hparts] at hnul ⊢
  simp only [hstart, hnul, hnames, List.dropLast_concat, List.getLast?_concat, Option.getD_some,
    enter_names hp hc, hempty, Bool.false_eq_true, if_false, if_neg h.2.2.not_gt, hslash,
    decide_false, Bool.false_and]

/-! ## Paths that lead to files -/

/-- No file stands at a place or above it. -/
def FreeAbove (fs : FileSystem) (place : Place) : Prop :=
  ∀ above, above <+: place → ∀ content, fs.node? above ≠ some (.file content)

theorem FreeAbove.dropLast (h : fs.FreeAbove here) : fs.FreeAbove here.dropLast :=
  fun above ha => h above (ha.trans here.dropLast_prefix)

theorem FreeAbove.enter (h : fs.FreeAbove here) {there : Place}
    (he : fs.enter here names = .ok there) : fs.FreeAbove there := by
  induction names generalizing here with
  | nil =>
    obtain rfl := Except.ok.inj he
    exact h
  | cons name names ih =>
    obtain ⟨next, hd, hn, he⟩ := enter_cons_eq_ok_iff.1 he
    refine ih ?_ he
    unfold descend at hd
    split at hd
    · obtain rfl := Except.ok.inj hd
      exact h
    · split at hd
      · obtain rfl := Except.ok.inj hd
        exact h.dropLast
      · split at hd
        · cases hd
        · obtain rfl := Except.ok.inj hd
          intro above ha content
          obtain rfl | ha := List.prefix_concat_iff.1 ha
          · simp [hn]
          · exact h above ha content

/-- A file is read through a path that does not end in a slash, and whose last name leads down. -/
theorem last_of_read (hw : fs.FreeAbove fs.workingDirectory) {content : ByteArray}
    (h : fs.read path = .ok content) :
    path.utf8ByteSize ≤ maxPath ∧ path.toList.getLast? ≠ some '/' ∧
      ∃ last, (namesOf path).getLast? = some last ∧ last ≠ "." ∧ last ≠ ".." := by
  obtain ⟨target, ht, hwants, hn⟩ := read_eq_ok h
  have hstart : fs.FreeAbove (fs.startOf path) := by
    unfold startOf
    split
    · intro above ha content
      rw [List.prefix_nil.1 ha]
      nofun
    · exact hw
  obtain ⟨⟨-, -, hsize⟩, ⟨-, rfl⟩ | ⟨last, here, hl, he, hd, hwd⟩⟩ := resolve_eq_ok_iff.1 ht
  · exact absurd hn (hstart _ (List.prefix_refl _) content)
  · have hhere := hstart.enter he
    have hdot : last ≠ "." := by
      rintro rfl
      obtain rfl := Except.ok.inj hd
      exact hhere _ (List.prefix_refl _) content hn
    have hup : last ≠ ".." := by
      rintro rfl
      have hd : here.dropLast = target.place := Except.ok.inj hd
      exact hhere.dropLast _ (List.prefix_refl _) content (hd ▸ hn)
    refine ⟨hsize, fun hs => ?_, last, hl, hdot, hup⟩
    rw [hwants] at hwd
    simp [hs, hdot, hup] at hwd

theorem namesFile_of_read (hw : fs.FreeAbove fs.workingDirectory) {content : ByteArray}
    (h : fs.read path = .ok content) : NamesFile path ∧ (fileName? path).isSome := by
  obtain ⟨hsize, hslash, last, hl, hdot, hup⟩ := last_of_read hw h
  obtain ⟨init, piece, hp⟩ := exists_pieces_eq path
  have hne : piece ≠ "" := by
    rintro rfl
    obtain rfl | ⟨before, hb⟩ := exists_of_getLast?_pieces (hp ▸ List.getLast?_concat)
    · cases hl
    · exact hslash (by rw [hb]; exact List.getLast?_concat)
  rw [namesOf_of_pieces hp hne, List.getLast?_concat] at hl
  obtain rfl := Option.some.inj hl
  refine ⟨⟨?_, ?_, hsize⟩, ?_⟩
  · rintro ⟨before, hb⟩
    exact hslash (by rw [← hb]; exact List.getLast?_concat)
  · rintro ⟨before, hb⟩
    have hp' := pieces_append_last (by decide : '/' ∉ ['.']) hb.symm
    rw [hp] at hp'
    exact hdot (List.singleton_inj.1 (List.append_inj' hp' rfl).2)
  · rw [fileName?_of_pieces hp (by simp [counts, hne, hdot]), if_neg hup]
    rfl

/-- Paths with the same components lead to the same file, if both may lead to one. -/
theorem read_congr (h : NamesFile path) (h' : NamesFile other) (hn : (fileName? path).isSome)
    (hc : components path = components other) : fs.read path = fs.read other := by
  have hn' : (fileName? other).isSome := by
    rwa [fileName?, ← hc]
  rw [read, read, resolve_eq_follow h hn, resolve_eq_follow h' hn', hc]

end Findings.FileSystem
