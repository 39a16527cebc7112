import Findings.Proofs.Text
import Findings.Suppression.Marker

/-!
# Markers as they are written

What stands in a line of which a marker is read, and what is taken from it.

* `ofLine?_eq_some_iff`: the first keyword of the line begins the marker, in or after a comment.
* `mem_readTargets_iff`: its targets are the entries in the brackets that are not blank.
* `isInfix_readComment`, `isInfix_readComment_iff`: its comment is text after the bracket,
  which is cut at the end of a block only if nothing else follows.
* `isSome_markerFor?_iff`: a marker is found if one of the lines that can hold it gives one.
-/

namespace Findings

open Text CommentStyle

namespace Marker

/-- The text of a marker: the keyword, blanks, and a list from `[` to the next `]`. -/
def Written (list marker : List Char) : Prop :=
  ']' ∉ list ∧ ∃ blanks, (∀ c ∈ blanks, isBlank c = true) ∧
    marker = keyword ++ (blanks ++ '[' :: (list ++ [']']))

/-- Whether an entry of the list of a marker asks for the suppression of a finding. -/
def Asks (entry : List Char) (hash checker : String) : Prop :=
  .ofList (trim entry) = allCheckers ∨ .ofList (trim entry) = checker ∨ .ofList (trim entry) = hash

/-- Whether one of the entries of a list asks for the suppression of a finding. -/
def Names (list : List Char) (hash checker : String) : Prop :=
  ∃ entry ∈ splitAt ',' list, Asks entry hash checker

/-- The first keyword of a text begins a marker. -/
structure FirstIn (text before marker list rest : List Char) : Prop where
  text_eq : text = before ++ (marker ++ rest)
  first : occurs keyword (before ++ keyword.dropLast) = false
  written : Written list marker

variable {style : CommentStyle} {line : ScannedLine} {marker : Marker} {list rest : List Char}
  {hash checker : String}

/-! ## Targets -/

theorem mem_readTargets_iff {target : String} :
    target ∈ readTargets list ↔
      ∃ entry ∈ splitAt ',' list, trim entry ≠ [] ∧ .ofList (trim entry) = target := by
  simp only [readTargets, List.mem_map, List.mem_filter, Bool.not_eq_true',
    List.isEmpty_eq_false_iff]
  constructor
  · rintro ⟨_, ⟨⟨entry, he, rfl⟩, hne⟩, rfl⟩
    exact ⟨entry, he, hne, rfl⟩
  · rintro ⟨entry, he, hne, rfl⟩
    exact ⟨trim entry, ⟨⟨entry, he, rfl⟩, hne⟩, rfl⟩

/-- A marker is for a finding iff an entry that is not blank asks for its suppression. -/
theorem appliesTo_readTargets_iff (comment : String) :
    (⟨readTargets list, comment⟩ : Marker).appliesTo hash checker = true ↔
      ∃ entry ∈ splitAt ',' list, trim entry ≠ [] ∧ Asks entry hash checker := by
  simp only [appliesTo, List.any_eq_true, Bool.or_eq_true, decide_eq_true_eq, or_assoc,
    mem_readTargets_iff]
  constructor
  · rintro ⟨_, ⟨entry, he, hne, rfl⟩, h⟩
    exact ⟨entry, he, hne, h⟩
  · rintro ⟨entry, he, hne, h⟩
    exact ⟨_, ⟨entry, he, hne, rfl⟩, h⟩

/-! ## Reading -/

theorem not_isBlank_bracket : isBlank '[' = false := by
  decide

/-- Blanks before a bracket are skipped. -/
theorem trimStart_eq_cons_bracket_iff {cs : List Char} :
    trimStart cs = '[' :: rest ↔
      ∃ blanks, (∀ c ∈ blanks, isBlank c = true) ∧ cs = blanks ++ '[' :: rest := by
  constructor
  · intro h
    obtain ⟨blanks, hcs, hb⟩ := exists_append_trimStart cs
    exact ⟨blanks, hb, h ▸ hcs⟩
  · rintro ⟨blanks, hb, rfl⟩
    rw [trimStart, List.dropWhile_append_of_pos (by simpa using hb)]
    exact List.dropWhile_cons_of_neg (by rw [not_isBlank_bracket]; decide)

theorem cut?_bracket_eq_some_iff {cs : List Char} :
    cut? [']'] cs = some (list, rest) ↔ cs = list ++ ']' :: rest ∧ ']' ∉ list := by
  rw [cut?_eq_some_iff (List.cons_ne_nil _ _), ← occurs_singleton_eq_false_iff]
  simp

theorem afterKeyword?_eq_some_iff {cs : List Char} :
    afterKeyword? cs = some marker ↔
      ∃ list text rest, Written list (keyword ++ text) ∧ cs = text ++ rest ∧
        readTargets list ≠ [] ∧ marker = ⟨readTargets list, .ofList (readComment rest)⟩ := by
  simp only [afterKeyword?, Option.bind_eq_bind, Option.bind_eq_some_iff, after?_eq_some_iff,
    List.singleton_append, trimStart_eq_cons_bracket_iff, Prod.exists, cut?_bracket_eq_some_iff]
  constructor
  · rintro ⟨_, ⟨blanks, hb, rfl⟩, list, rest, ⟨rfl, hl⟩, h⟩
    split at h
    · cases h
    · rename_i hne
      refine ⟨list, blanks ++ '[' :: (list ++ [']']), rest, ⟨hl, blanks, hb, rfl⟩, by simp, ?_⟩
      exact ⟨mt List.isEmpty_iff.2 hne, (Option.some.inj h).symm⟩
  · rintro ⟨list, text, rest, ⟨hl, blanks, hb, ht⟩, rfl, hne, rfl⟩
    obtain rfl := List.append_cancel_left ht
    refine ⟨list ++ ']' :: rest, ⟨blanks, hb, by simp⟩, list, rest, ⟨rfl, hl⟩, ?_⟩
    rw [if_neg (mt List.isEmpty_iff.1 hne)]

/-- A marker is read off a line iff the first keyword of the line begins one, with targets, and the
line starts in a block or a comment opens before it. -/
theorem ofLine?_eq_some_iff :
    ofLine? style line = some marker ↔
      ∃ before text list rest, FirstIn line.text before text list rest ∧
        (line.startsInBlock = true ∨ style.opensComment before = true) ∧ readTargets list ≠ [] ∧
        marker = ⟨readTargets list, .ofList (readComment rest)⟩ := by
  have hkey : keyword ≠ [] := by decide
  simp only [ofLine?, Option.bind_eq_bind, Option.bind_eq_some_iff, Prod.exists,
    cut?_eq_some_iff hkey]
  constructor
  · rintro ⟨before, cs, ⟨htext, hfirst⟩, h⟩
    split at h
    · rename_i hopen
      obtain ⟨list, text, rest, hw, rfl, hne, rfl⟩ := afterKeyword?_eq_some_iff.1 h
      refine ⟨before, keyword ++ text, list, rest, ⟨?_, hfirst, hw⟩, ?_, hne, rfl⟩
      · rw [htext, List.append_assoc]
      · exact Bool.or_eq_true_iff.1 hopen
    · cases h
  · rintro ⟨before, _, list, rest, ⟨htext, hfirst, hl, blanks, hb, rfl⟩, hopen, hne, rfl⟩
    refine ⟨before, _, ⟨by rw [htext, List.append_assoc], hfirst⟩, ?_⟩
    rw [if_pos (Bool.or_eq_true_iff.2 hopen)]
    exact afterKeyword?_eq_some_iff.2 ⟨list, _, rest, ⟨hl, blanks, hb, rfl⟩, rfl, hne, rfl⟩

/-! ## Comments -/

/-- The comment of a marker is taken from what follows the bracket. -/
theorem isInfix_readComment (rest : List Char) : readComment rest <:+: rest := by
  refine (isInfix_trim _).trans ?_
  cases hb : before? blockClose (trim rest) with
  | none => exact isInfix_trim rest
  | some comment =>
    refine List.IsInfix.trans ?_ (isInfix_trim rest)
    rw [before?_eq_some_iff.1 hb]
    exact (List.prefix_append _ _).isInfix

theorem readComment_append {ends : List Char} (h : ∀ c ∈ ends, isBlank c = true) :
    readComment (rest ++ ends) = readComment rest := by
  rw [readComment, readComment, trim_append h]

theorem trim_append_blockClose (a b : List Char) :
    trim (a ++ (blockClose ++ b)) = trimStart a ++ (blockClose ++ trimEnd b) := by
  have hstar : isBlank '*' = false := by decide
  have hslash : trimEnd ('/' :: b) = '/' :: trimEnd b := dropEnd_append_cons (by decide) [] b
  rw [trim, blockClose, List.cons_append, List.cons_append, List.nil_append,
    trimStart_append_cons hstar, trimEnd, dropEnd_append_cons hstar, ← trimEnd, hslash]
  rfl

/-- The end of a block that a text ends in is not the one before some other text in it. -/
theorem exists_of_append_blockClose {a b x : List Char} (hb : b ≠ [])
    (h : a ++ (blockClose ++ b) = x ++ blockClose) : ∃ y, x = a ++ (blockClose ++ y) := by
  rw [← List.append_assoc, List.append_eq_append_iff] at h
  obtain ⟨y, hx, -⟩ | ⟨y, ha, hy⟩ := h
  · exact ⟨y, by rw [hx, List.append_assoc]⟩
  · cases y with
    | nil => exact ⟨[], by simpa using ha.symm⟩
    | cons c y =>
      -- The two would share a character.
      rw [blockClose, List.cons_append, List.cons.injEq] at hy
      obtain ⟨rfl, hy⟩ := hy
      have hlen := congrArg List.length hy
      have hpos := List.length_pos_iff.2 hb
      simp only [List.length_append, List.length_singleton] at hlen
      obtain rfl : y = [] := List.length_eq_zero_iff.1 (by omega)
      have hlast := congrArg List.getLast? ha
      simp [blockClose] at hlast

/-- The comment of a marker is from before the end of a block iff only blanks follow this end. -/
theorem isInfix_readComment_iff {within beyond : List Char}
    (h : cut? blockClose rest = some (within, beyond)) :
    readComment rest <:+: within ↔ ∀ c ∈ beyond, isBlank c = true := by
  obtain ⟨rfl, hfirst⟩ := (cut?_eq_some_iff (by decide)).1 h
  have hnot : ¬ blockClose <:+: within := by
    intro hin
    have hmore := hin.trans (List.prefix_append within blockClose.dropLast).isInfix
    rw [← occurs_iff_isInfix, hfirst] at hmore
    cases hmore
  rw [← dropEnd_eq_nil_iff, ← trimEnd, readComment, trim_append_blockClose]
  constructor
  · intro hin
    by_contra hb
    refine hnot (List.IsInfix.trans ?_ hin)
    -- Whether or not the line ends in another end of a block, this one is kept.
    obtain ⟨x, y, hx⟩ : ∃ x y,
        (before? blockClose (trimStart within ++ (blockClose ++ trimEnd beyond))).getD
          (trimStart within ++ (blockClose ++ trimEnd beyond)) = x ++ (blockClose ++ y) := by
      cases hc : before? blockClose (trimStart within ++ (blockClose ++ trimEnd beyond)) with
      | none => exact ⟨_, _, rfl⟩
      | some x => exact ⟨_, exists_of_append_blockClose hb (before?_eq_some_iff.1 hc)⟩
    rw [hx, trim_append_blockClose]
    exact List.infix_append' _ _ _
  · intro hb
    have hc : before? blockClose (trimStart within ++ (blockClose ++ trimEnd beyond)) =
        some (trimStart within) := before?_eq_some_iff.2 (by rw [hb, List.append_nil])
    rw [hc, Option.getD_some]
    exact (isInfix_trim _).trans (List.dropWhile_suffix _).isInfix

end Marker

/-! ## Looking markers up -/

variable {style : CommentStyle} {source : SourceFile} {n : Nat} {hash checker : String}
  {marker : Marker}

/-- A marker that is found stands on one of the lines that can hold it, and is for the finding. -/
theorem exists_of_markerFor? (h : markerFor? style source n hash checker = some marker) :
    ∃ line ∈ candidateLines style source n,
      Marker.ofLine? style line = some marker ∧ marker.appliesTo hash checker = true := by
  obtain ⟨line, hline, hread⟩ := List.mem_filterMap.1 (List.mem_of_find?_eq_some h)
  exact ⟨line, hline, hread,
    List.find?_some (p := fun marker : Marker => marker.appliesTo hash checker) h⟩

/-- A marker is found iff some line that can hold it gives one for the finding. -/
theorem isSome_markerFor?_iff :
    (markerFor? style source n hash checker).isSome ↔
      ∃ line ∈ candidateLines style source n, ∃ marker,
        Marker.ofLine? style line = some marker ∧ marker.appliesTo hash checker = true := by
  simp only [markerFor?, List.find?_isSome, List.mem_filterMap]
  constructor
  · rintro ⟨marker, ⟨line, hline, hread⟩, happlies⟩
    exact ⟨line, hline, marker, hread, happlies⟩
  · rintro ⟨line, hline, marker, hread, happlies⟩
    exact ⟨marker, ⟨line, hline, hread⟩, happlies⟩

theorem inlineSuppression_eq_some_iff {sources : SourceCache} {fs : FileSystem} {path : String}
    {found : InlineSuppression} :
    (inlineSuppression sources fs path n hash checker).1 = some found ↔
      ∃ source, (sources.file fs path).1 = some source ∧
        ∃ marker, markerFor? (.ofPath path) source n hash checker = some marker ∧
          found = ⟨hash, FilePath.basename path, marker.comment⟩ := by
  simp only [inlineSuppression, Option.bind_eq_bind, Option.bind_eq_some_iff, Option.some.injEq,
    eq_comm (a := found)]

theorem isSome_inlineSuppression (sources : SourceCache) (fs : FileSystem) (path : String)
    (n : Nat) (hash checker : String) :
    (inlineSuppression sources fs path n hash checker).1.isSome =
      ((sources.file fs path).1.bind fun source =>
        markerFor? (.ofPath path) source n hash checker).isSome := by
  rw [Bool.eq_iff_iff]
  simp only [Option.isSome_iff_exists, inlineSuppression_eq_some_iff, Option.bind_eq_some_iff]
  constructor
  · rintro ⟨_, source, hsource, marker, hmarker, -⟩
    exact ⟨marker, source, hsource, hmarker⟩
  · rintro ⟨marker, source, hsource, hmarker⟩
    exact ⟨_, source, hsource, marker, hmarker, rfl⟩

end Findings
