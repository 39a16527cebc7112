import Findings.Proofs.FilePath

/-!
# The last name in a path

A path goes by the last name in it. `NameIn` says what a name is without a word on how it is found:
a run of characters between separators, with the text on both sides.

* `isLastName_iff`: `basename` finds the last name, and there is only one.
* `basenameChars_append_seps`, `basenameChars_seps_append`: separators at the ends do not matter.
* `basename_of_toList_eq`, `basename_join`: directories in front of a path with a name do not
  matter.
* `basename_append_slash_of_not`: in front of a path without a name they do.
-/

namespace Findings.FilePath

variable {path : String} {cs seps name : List Char}

/-- A name in a path, with what stands before and behind it: a run of characters none of which is a
separator, as long as it can be. -/
structure NameIn (path before name after : List Char) : Prop where
  eq_append : path = before ++ (name ++ after)
  ne_nil : name ≠ []
  plain : ∀ c ∈ name, isSeparator c = false
  begins : ∀ c ∈ before.getLast?, isSeparator c = true
  ends : ∀ c ∈ after.head?, isSeparator c = true

/-- The name in a path that no other one begins behind, or nothing if the path has no name. -/
def IsLastName (path name : List Char) : Prop :=
  (∃ before after, NameIn path before name after ∧
      ∀ before' name' after', NameIn path before' name' after' → before'.length ≤ before.length) ∨
    name = [] ∧ ∀ before' name' after', ¬NameIn path before' name' after'

theorem basenameChars_eq (cs : List Char) :
    basenameChars cs = (Text.dropEnd isSeparator cs).rtakeWhile fun c => !isSeparator c := by
  rw [basenameChars, Text.dropEnd, List.rtakeWhile, List.reverse_reverse]

theorem basenameChars_eq_nil_iff : basenameChars cs = [] ↔ ∀ c ∈ cs, isSeparator c = true := by
  rw [basenameChars_eq, List.rtakeWhile_eq_nil_iff, ← Text.dropEnd_eq_nil_iff]
  constructor
  · intro h
    by_contra hne
    have hlast : ¬isSeparator ((Text.dropEnd isSeparator cs).getLast hne) = true :=
      List.rdropWhile_last_not isSeparator cs hne
    exact h hne (by simpa using hlast)
  · intro h hne
    exact absurd h hne

theorem takeWhile_eq_nil_of_head? (h : ∀ c ∈ cs.head?, isSeparator c = true) :
    cs.takeWhile (fun c => !isSeparator c) = [] := by
  cases cs with
  | nil => rfl
  | cons c rest => exact List.takeWhile_cons_of_neg (by simp [h c rfl])

namespace NameIn

variable {path before name after before' name' after' : List Char}

/-- A name is all that stands between where it begins and the next separator. -/
theorem eq_takeWhile (h : NameIn path before name after) :
    name = (path.drop before.length).takeWhile fun c => !isSeparator c := by
  have hname : ∀ c ∈ name, (!isSeparator c) = true := fun c hc => by simp [h.plain c hc]
  rw [h.eq_append, List.drop_left, List.takeWhile_append_of_pos hname,
    takeWhile_eq_nil_of_head? h.ends, List.append_nil]

theorem not_forall_isSeparator (h : NameIn path before name after) (hsub : name ⊆ cs) :
    ¬∀ c ∈ cs, isSeparator c = true := by
  intro hall
  obtain ⟨c, hc⟩ := List.exists_mem_of_ne_nil name h.ne_nil
  exact Bool.false_ne_true ((h.plain c hc).symm.trans (hall c (hsub hc)))

theorem basenameChars_ne_nil (h : NameIn path before name after) : basenameChars path ≠ [] := by
  have hsub : name ⊆ path := by simp [h.eq_append]
  exact fun hnil => h.not_forall_isSeparator hsub (basenameChars_eq_nil_iff.1 hnil)

/-- A name with only separators behind it is what the path goes by. -/
theorem basenameChars_eq (h : NameIn path before name after)
    (hafter : ∀ c ∈ after, isSeparator c = true) : basenameChars path = name := by
  have hkept : Text.dropEnd isSeparator (before ++ name) = before ++ name := by
    refine List.rdropWhile_eq_self_iff.2 fun hne => ?_
    rw [List.getLast_append_of_ne_nil hne h.ne_nil]
    exact Bool.eq_false_iff.1 (h.plain _ (List.getLast_mem h.ne_nil))
  have hname : ∀ c ∈ name.reverse, (!isSeparator c) = true := fun c hc => by
    simp [h.plain c (List.mem_reverse.1 hc)]
  have hbefore : ∀ c ∈ before.reverse.head?, isSeparator c = true := by
    rw [List.head?_reverse]
    exact h.begins
  rw [FilePath.basenameChars_eq, h.eq_append, ← List.append_assoc, Text.dropEnd_append hafter,
    hkept, List.rtakeWhile, List.reverse_append, List.takeWhile_append_of_pos hname,
    takeWhile_eq_nil_of_head? hbefore, List.append_nil, List.reverse_reverse]

/-- No name begins behind one that has only separators behind it. -/
theorem length_le (h : NameIn path before name after)
    (hafter : ∀ c ∈ after, isSeparator c = true) (h' : NameIn path before' name' after') :
    before'.length ≤ before.length := by
  have he : before ++ (name ++ after) = before' ++ (name' ++ after') :=
    h.eq_append.symm.trans h'.eq_append
  obtain ⟨between, rfl, hrest⟩ | ⟨between, rfl, -⟩ := List.append_eq_append_iff.1 he
  · obtain rfl | ⟨init, sep, rfl⟩ := List.eq_nil_or_concat between
    · simp
    -- The separator in front of the second name is not in the first one. So the second name is
    -- behind the first, where there are only separators.
    · exfalso
      have hsep : isSeparator sep = true := h'.begins sep (by simp)
      obtain ⟨more, -, rfl⟩ | ⟨more, rfl, -⟩ := List.append_eq_append_iff.1 hrest
      · exact h'.not_forall_isSeparator (by simp) hafter
      · have hinside : isSeparator sep = false := h.plain sep (by simp)
        exact Bool.false_ne_true (hinside.symm.trans hsep)
  · simp

/-- A name in a path is one in every path that leads on to it. -/
theorem below {sep : Char} (hsep : isSeparator sep = true) (dir : List Char)
    (h : NameIn path before name after) :
    NameIn (dir ++ sep :: path) (dir ++ sep :: before) name after where
  eq_append := by rw [h.eq_append, List.append_assoc, List.cons_append]
  ne_nil := h.ne_nil
  plain := h.plain
  begins := by
    cases before with
    | nil => simpa using hsep
    | cons c rest => simpa [List.getLast?_append] using h.begins
  ends := h.ends

end NameIn

/-- Where the name of a path stands: only separators are behind it. -/
theorem exists_nameIn (h : basenameChars cs ≠ []) :
    ∃ before after, NameIn cs before (basenameChars cs) after ∧
      ∀ c ∈ after, isSeparator c = true := by
  obtain ⟨after, hcs, hafter⟩ := Text.exists_append_dropEnd isSeparator cs
  refine ⟨(Text.dropEnd isSeparator cs).rdropWhile fun c => !isSeparator c, after, ?_, hafter⟩
  refine ⟨?_, h, fun c hc => isSeparator_of_mem_basenameChars hc, fun c hc => ?_,
    fun c hc => hafter c (List.mem_of_mem_head? hc)⟩
  · rw [basenameChars_eq, ← List.append_assoc, List.rdropWhile_append_rtakeWhile]
    exact hcs
  · obtain ⟨hne, rfl⟩ := List.mem_getLast?_eq_getLast hc
    simpa using List.rdropWhile_last_not _ _ hne

theorem isLastName_basenameChars (cs : List Char) : IsLastName cs (basenameChars cs) := by
  by_cases h : basenameChars cs = []
  · exact .inr ⟨h, fun _ _ _ hn => hn.basenameChars_ne_nil h⟩
  · obtain ⟨before, after, hn, hafter⟩ := exists_nameIn h
    exact .inl ⟨before, after, hn, fun _ _ _ hn' => hn.length_le hafter hn'⟩

theorem isLastName_iff : IsLastName cs name ↔ name = basenameChars cs := by
  constructor
  · rintro (⟨before, after, hn, hlast⟩ | ⟨rfl, hnone⟩)
    · obtain ⟨before', after', hn', hafter'⟩ := exists_nameIn hn.basenameChars_ne_nil
      have hlength : before.length = before'.length :=
        Nat.le_antisymm (hn'.length_le hafter' hn) (hlast _ _ _ hn')
      rw [hn.eq_takeWhile, hlength, ← hn'.eq_takeWhile]
    · by_contra hne
      obtain ⟨before, after, hn, -⟩ := exists_nameIn (Ne.symm hne)
      exact hnone _ _ _ hn
  · rintro rfl
    exact isLastName_basenameChars cs

example : basename "/ci\\src//x.c/\\" = "x.c" := by decide

/-! ## What stands around the last name -/

theorem basenameChars_append_cons {sep : Char} (hsep : isSeparator sep = true) (dir : List Char)
    (h : basenameChars cs ≠ []) : basenameChars (dir ++ sep :: cs) = basenameChars cs := by
  obtain ⟨before, after, hn, hafter⟩ := exists_nameIn h
  exact (hn.below hsep dir).basenameChars_eq hafter

theorem basenameChars_append_seps (h : ∀ c ∈ seps, isSeparator c = true) (cs : List Char) :
    basenameChars (cs ++ seps) = basenameChars cs := by
  rw [basenameChars_eq, basenameChars_eq, Text.dropEnd_append h]

theorem basenameChars_seps_append (h : ∀ c ∈ seps, isSeparator c = true) (cs : List Char) :
    basenameChars (seps ++ cs) = basenameChars cs := by
  by_cases hcs : basenameChars cs = []
  · have hall : ∀ c ∈ seps ++ cs, isSeparator c = true :=
      List.forall_mem_append.2 ⟨h, basenameChars_eq_nil_iff.1 hcs⟩
    rw [hcs, basenameChars_eq_nil_iff.2 hall]
  · obtain rfl | ⟨init, sep, rfl⟩ := List.eq_nil_or_concat seps
    · rfl
    · rw [List.concat_append, basenameChars_append_cons (h sep (by simp)) init hcs]

/-! ## Directories -/

/-- Whether there is a name in a path. -/
def HasName (path : String) : Prop :=
  ∃ c ∈ path.toList, isSeparator c = false

theorem hasName_iff : HasName path ↔ basenameChars path.toList ≠ [] := by
  simp [HasName, basenameChars_eq_nil_iff]

theorem basename_eq_basename_iff {other : String} :
    basename other = basename path ↔ basenameChars other.toList = basenameChars path.toList := by
  rw [basename, basename, String.ofList_inj]

/-- A path that leads on to one with a name goes by the same name. -/
theorem basename_of_toList_eq {dir : List Char} {sep : Char} {longer : String}
    (he : longer.toList = dir ++ sep :: path.toList) (hsep : isSeparator sep = true)
    (h : HasName path) : basename longer = basename path := by
  rw [basename_eq_basename_iff, he]
  exact basenameChars_append_cons hsep dir (hasName_iff.1 h)

theorem basename_append_slash (h : HasName path) (dir : String) :
    basename (dir ++ "/" ++ path) = basename path := by
  have he : (dir ++ "/" ++ path).toList = dir.toList ++ '/' :: path.toList := by simp
  exact basename_of_toList_eq he rfl h

theorem basename_append_backslash (h : HasName path) (dir : String) :
    basename (dir ++ "\\" ++ path) = basename path := by
  have he : (dir ++ "\\" ++ path).toList = dir.toList ++ '\\' :: path.toList := by simp
  exact basename_of_toList_eq he rfl h

/-- A path without a name goes by the directory in front of it. -/
theorem basename_append_slash_of_not (h : ¬HasName path) (dir : String) :
    basename (dir ++ "/" ++ path) = basename dir := by
  have hall : ∀ c ∈ '/' :: path.toList, isSeparator c = true :=
    List.forall_mem_cons.2 ⟨rfl, by simpa [HasName] using h⟩
  have he : (dir ++ "/" ++ path).toList = dir.toList ++ '/' :: path.toList := by simp
  rw [basename_eq_basename_iff, he]
  exact basenameChars_append_seps hall dir.toList

theorem basename_join (h : HasName path) (base : String) :
    basename (join base path) = basename path := by
  rw [join]
  split
  · rfl
  · split
    · rename_i hlast
      obtain ⟨init, hinit⟩ := List.getLast?_eq_some_iff.1 hlast
      have he : (base ++ path).toList = init ++ '/' :: path.toList := by simp [hinit]
      exact basename_of_toList_eq he rfl h
    · exact basename_append_slash h base

end Findings.FilePath
