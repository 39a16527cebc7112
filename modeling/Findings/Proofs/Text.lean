import Findings.Text.Blank
import Findings.Text.Lines
import Mathlib.Data.List.DropRight
import Mathlib.Data.List.Infix

/-!
# Cutting, trimming and lines

* `cut?_of_not_occurs`, `not_occurs_of_cut?`: a text is cut at a needle that was put into it iff the
  needle does not occur earlier, its own beginning included.
* `cut?_eq_some_iff`, `after?_eq_some_iff`, `before?_eq_some_iff`: what cutting and taking off a
  start or an end return.
* `trim_eq_self_of_length`: trimming changes a text only by making it shorter.
* `exists_append_trim`, `trim_append`: what trimming cuts off are blanks, and all of them.
* `trimStart_append_cons`, `dropEnd_append_cons`: trimming stops at a character that stays.
* `splitAt_append`, `splitAt_append_last`: the first and the last of the pieces between separators.
* `induction_on_lines`: a property of texts holds if a line in front keeps it.
* `lines_append`, `newline_not_mem_of_mem_lines`: a line feed ends a line, and none is in one.
* `exists_mem_lines`: all other characters but carriage returns are in a line.
* `segments_terminated_append`, `lines_terminated_append`: lines above a text come before its lines.
* `exists_eq_terminated_append`: what stands before and after a line of a text.
-/

namespace Findings.Text

variable {needle a b p q : List Char}

/-! ## Cutting -/

theorem isPrefixOf_append_dropLast {c : Char} (cs : List Char) :
    needle.isPrefixOf (c :: (cs ++ needle.dropLast)) =
      needle.isPrefixOf (c :: (cs ++ (needle ++ b))) := by
  have hsub : c :: (cs ++ needle.dropLast) <+: c :: (cs ++ (needle ++ b)) := by
    have hp : needle.dropLast <+: needle ++ b :=
      (List.dropLast_prefix needle).trans (List.prefix_append needle b)
    exact List.cons_prefix_cons.2 ⟨rfl, (List.prefix_append_right_inj cs).2 hp⟩
  rw [Bool.eq_iff_iff, List.isPrefixOf_iff_prefix, List.isPrefixOf_iff_prefix]
  refine ⟨fun h => h.trans hsub, fun h => ?_⟩
  refine List.prefix_of_prefix_length_le h hsub ?_
  simp only [List.length_cons, List.length_append, List.length_dropLast]
  omega

theorem occurs_cons (c : Char) (cs : List Char) :
    occurs needle (c :: cs) = (needle.isPrefixOf (c :: cs) || occurs needle cs) := by
  unfold occurs
  rw [cut?]
  cases needle.isPrefixOf (c :: cs) <;> simp

theorem occurs_iff_isInfix {cs : List Char} : occurs needle cs = true ↔ needle <:+: cs := by
  induction cs with
  | nil => simp [occurs, cut?, List.isEmpty_iff]
  | cons c cs ih =>
    rw [occurs_cons, Bool.or_eq_true, ih, List.isPrefixOf_iff_prefix, List.infix_cons_iff]

theorem occurs_eq_false_of_length_lt {cs : List Char} (h : cs.length < needle.length) :
    occurs needle cs = false := by
  cases hc : cut? needle cs with
  | none => simp [occurs, hc]
  | some parts =>
    obtain ⟨before, after⟩ := parts
    have hl := congrArg List.length (append_of_cut? hc)
    simp only [List.length_append] at hl
    omega

theorem occurs_cons_eq_false_iff {c : Char} {cs : List Char} :
    occurs needle (c :: cs) = false ↔
      needle.isPrefixOf (c :: cs) = false ∧ occurs needle cs = false := by
  rw [occurs_cons, Bool.or_eq_false_iff]

/-- A needle that was put into a text is where the text is cut, if it does not occur before. -/
theorem cut?_of_not_occurs (hn : needle ≠ []) (h : occurs needle (a ++ needle.dropLast) = false)
    (b : List Char) : cut? needle (a ++ (needle ++ b)) = some (a, b) := by
  induction a with
  | nil =>
    obtain ⟨c, cs, rfl⟩ := List.exists_cons_of_ne_nil hn
    have hp : (c :: cs).isPrefixOf (c :: (cs ++ b)) = true :=
      List.isPrefixOf_iff_prefix.2 ⟨b, rfl⟩
    simp [cut?, hp]
  | cons c a ih =>
    rw [List.cons_append, occurs_cons_eq_false_iff, isPrefixOf_append_dropLast] at h
    rw [List.cons_append, cut?, h.1, ih h.2]
    rfl

theorem not_occurs_of_cut? (hn : needle ≠ [])
    (h : cut? needle (a ++ (needle ++ b)) = some (a, q)) :
    occurs needle (a ++ needle.dropLast) = false := by
  induction a with
  | nil =>
    refine occurs_eq_false_of_length_lt ?_
    have := List.length_pos_iff.2 hn
    rw [List.nil_append, List.length_dropLast]
    omega
  | cons c a ih =>
    rw [List.cons_append, cut?] at h
    split at h
    · simp at h
    · rename_i hp
      obtain ⟨⟨p, r⟩, hc, he⟩ := Option.map_eq_some_iff.1 h
      simp only [Prod.mk.injEq, List.cons.injEq, true_and] at he
      obtain ⟨rfl, rfl⟩ := he
      rw [List.cons_append, occurs_cons, isPrefixOf_append_dropLast, ih hc, Bool.or_false]
      exact Bool.eq_false_iff.2 hp

/-- A text is cut no later than at a needle that was put into it. -/
theorem length_le_of_cut? (h : cut? needle (a ++ (needle ++ b)) = some (p, q)) :
    p.length ≤ a.length := by
  induction a generalizing p q with
  | nil =>
    cases needle with
    | nil => cases b <;> simp_all [cut?]
    | cons c cs =>
      have hp : (c :: cs).isPrefixOf (c :: (cs ++ b)) = true :=
        List.isPrefixOf_iff_prefix.2 ⟨b, rfl⟩
      simp only [List.nil_append, List.cons_append, cut?, hp, if_true, Option.some.injEq,
        Prod.mk.injEq] at h
      simp [← h.1]
  | cons c a ih =>
    rw [List.cons_append, cut?] at h
    split at h
    · simp only [Option.some.injEq, Prod.mk.injEq] at h
      simp [← h.1]
    · obtain ⟨⟨p, r⟩, hc, he⟩ := Option.map_eq_some_iff.1 h
      simp only [Prod.mk.injEq] at he
      rw [← he.1, List.length_cons, List.length_cons]
      exact Nat.succ_le_succ (ih hc)

/-- A text is cut at the first occurrence of the needle. -/
theorem cut?_eq_some_iff (hn : needle ≠ []) {cs : List Char} :
    cut? needle cs = some (a, b) ↔
      cs = a ++ (needle ++ b) ∧ occurs needle (a ++ needle.dropLast) = false := by
  constructor
  · intro h
    have hcs : a ++ (needle ++ b) = cs := by rw [← append_of_cut? h, List.append_assoc]
    subst hcs
    exact ⟨rfl, not_occurs_of_cut? hn h⟩
  · rintro ⟨rfl, h⟩
    exact cut?_of_not_occurs hn h b

theorem cut?_eq_none_iff {cs : List Char} : cut? needle cs = none ↔ occurs needle cs = false := by
  rw [occurs, Option.isSome_eq_false_iff, Option.isNone_iff_eq_none]

/-- What follows the needle does not matter to where a text is cut. -/
theorem cut?_append (hn : needle ≠ []) {cs : List Char} (h : cut? needle cs = some (p, q))
    (more : List Char) : cut? needle (cs ++ more) = some (p, q ++ more) := by
  obtain ⟨rfl, hfirst⟩ := (cut?_eq_some_iff hn).1 h
  rw [List.append_assoc, List.append_assoc]
  exact (cut?_eq_some_iff hn).2 ⟨rfl, hfirst⟩

/-- A needle does not start where its first character does not occur. -/
theorem occurs_append_of_not_mem {c : Char} (h : c ∉ a) (cs : List Char) :
    occurs (c :: cs) (a ++ b) = occurs (c :: cs) b := by
  induction a with
  | nil => rfl
  | cons d a ih =>
    rw [List.mem_cons, not_or] at h
    have hd : (c :: cs).isPrefixOf (d :: (a ++ b)) = false := by simp [List.isPrefixOf, h.1]
    rw [List.cons_append, occurs_cons, hd, Bool.false_or, ih h.2]

theorem occurs_singleton_eq_false_iff {c : Char} : occurs [c] a = false ↔ c ∉ a := by
  rw [← Bool.not_eq_true, occurs_iff_isInfix, List.singleton_infix_iff]

theorem after?_eq_some_iff {cs : List Char} : after? needle cs = some b ↔ cs = needle ++ b := by
  unfold after?
  split
  · rename_i hp
    obtain ⟨rest, rfl⟩ := List.isPrefixOf_iff_prefix.1 hp
    simp
  · rename_i hp
    constructor
    · intro h
      cases h
    · rintro rfl
      exact absurd (List.isPrefixOf_iff_prefix.2 (List.prefix_append needle b)) hp

theorem before?_eq_some_iff {cs : List Char} : before? needle cs = some a ↔ cs = a ++ needle := by
  rw [before?, Option.map_eq_some_iff]
  constructor
  · rintro ⟨rest, hr, rfl⟩
    rw [← List.reverse_reverse cs, after?_eq_some_iff.1 hr, List.reverse_append,
      List.reverse_reverse]
  · rintro rfl
    exact ⟨a.reverse, after?_eq_some_iff.2 (List.reverse_append ..), List.reverse_reverse a⟩

/-! ## Trimming -/

theorem length_trimStart_of_cut? {cs : List Char} (h : cut? needle cs = some (p, q)) :
    (trimStart q).length + needle.length ≤ cs.length := by
  have hlen := congrArg List.length (append_of_cut? h)
  have hle : (trimStart q).length ≤ q.length := (List.dropWhile_suffix _).length_le
  simp only [List.length_append] at hlen
  omega

theorem dropEnd_isPrefix (f : Char → Bool) (cs : List Char) : dropEnd f cs <+: cs := by
  rw [dropEnd, ← List.reverse_suffix, List.reverse_reverse]
  exact List.dropWhile_suffix f

theorem trim_sublist (cs : List Char) : (trim cs).Sublist cs :=
  (dropEnd_isPrefix _ _).sublist.trans (List.dropWhile_suffix _).sublist

theorem length_trim_le (cs : List Char) : (trim cs).length ≤ cs.length :=
  (trim_sublist cs).length_le

theorem trim_eq_self_of_length {cs : List Char} (h : (trim cs).length = cs.length) :
    trim cs = cs :=
  (trim_sublist cs).eq_of_length h

theorem exists_append_trimStart (cs : List Char) :
    ∃ blanks, cs = blanks ++ trimStart cs ∧ ∀ c ∈ blanks, isBlank c = true :=
  ⟨cs.takeWhile isBlank, List.takeWhile_append_dropWhile.symm,
    fun _ hc => List.mem_takeWhile_imp hc⟩

theorem exists_append_dropEnd (f : Char → Bool) (cs : List Char) :
    ∃ ends, cs = dropEnd f cs ++ ends ∧ ∀ c ∈ ends, f c = true :=
  ⟨cs.rtakeWhile f, (List.rdropWhile_append_rtakeWhile ..).symm,
    fun _ hc => List.mem_rtakeWhile_imp hc⟩

theorem exists_append_trim (cs : List Char) :
    ∃ before after, cs = before ++ (trim cs ++ after) ∧ (∀ c ∈ before, isBlank c = true) ∧
      ∀ c ∈ after, isBlank c = true := by
  obtain ⟨before, hbefore, hb⟩ := exists_append_trimStart cs
  obtain ⟨after, hafter, ha⟩ := exists_append_dropEnd isBlank (trimStart cs)
  refine ⟨before, after, ?_, hb, ha⟩
  rw [trim, trimEnd, ← hafter]
  exact hbefore

theorem isInfix_trim (cs : List Char) : trim cs <:+: cs := by
  obtain ⟨before, after, he, -, -⟩ := exists_append_trim cs
  exact ⟨before, after, by rw [List.append_assoc, ← he]⟩

theorem dropEnd_append {f : Char → Bool} {ends : List Char} (h : ∀ c ∈ ends, f c = true)
    (cs : List Char) : dropEnd f (cs ++ ends) = dropEnd f cs := by
  rw [dropEnd, List.reverse_append, List.dropWhile_append_of_pos (by simpa using h)]
  rfl

theorem trimStart_trimStart (cs : List Char) : trimStart (trimStart cs) = trimStart cs :=
  List.dropWhile_idempotent _ cs

theorem trimEnd_trim (cs : List Char) : trimEnd (trim cs) = trim cs :=
  List.rdropWhile_idempotent _ _

theorem trimStart_trim (cs : List Char) : trimStart (trim cs) = trim cs := by
  refine List.dropWhile_eq_self_iff.2 fun hl => ?_
  have hstart := List.dropWhile_eq_self_iff.1 (trimStart_trimStart cs)
  have hp : trim cs <+: trimStart cs := dropEnd_isPrefix _ _
  rw [hp.getElem hl]
  exact hstart _

theorem trimEnd_eq_self_of_suffix {ending cs : List Char} (hs : ending <:+ cs)
    (h : trimEnd cs = cs) : trimEnd ending = ending := by
  refine List.rdropWhile_eq_self_iff.2 fun hne => ?_
  rw [hs.getLast hne]
  exact List.rdropWhile_eq_self_iff.1 h _

/-- Blanks after a text do not matter to its trim. -/
theorem trim_append {ends : List Char} (h : ∀ c ∈ ends, isBlank c = true) (cs : List Char) :
    trim (cs ++ ends) = trim cs := by
  by_cases hcs : ∀ c ∈ cs, isBlank c = true
  · rw [trim_eq_nil_iff.2 hcs, trim_eq_nil_iff]
    exact List.forall_mem_append.2 ⟨hcs, h⟩
  · have hne : ¬(cs.dropWhile isBlank).isEmpty = true := fun hnil =>
      hcs (dropWhile_eq_nil_iff_forall.1 (List.isEmpty_iff.1 hnil))
    have hstart : trimStart (cs ++ ends) = trimStart cs ++ ends := by
      rw [trimStart, List.dropWhile_append, if_neg hne]
      rfl
    rw [trim, hstart]
    exact dropEnd_append h _

/-- What follows a character that is not blank is kept. -/
theorem trimStart_append_cons {c : Char} (h : isBlank c = false) (a b : List Char) :
    trimStart (a ++ c :: b) = trimStart a ++ c :: b := by
  rw [trimStart, trimStart, List.dropWhile_append, List.dropWhile_cons_of_neg (by simp [h])]
  split
  · rename_i he
    rw [List.isEmpty_iff.1 he, List.nil_append]
  · rfl

/-- What stands before a character that is kept is kept. -/
theorem dropEnd_append_cons {f : Char → Bool} {c : Char} (h : f c = false) (a b : List Char) :
    dropEnd f (a ++ c :: b) = a ++ c :: dropEnd f b := by
  rw [dropEnd, dropEnd, List.reverse_append, List.reverse_cons, List.append_assoc,
    List.dropWhile_append, List.singleton_append, List.dropWhile_cons_of_neg (by simp [h])]
  split
  · rename_i he
    simp [List.isEmpty_iff.1 he]
  · simp

/-! ## Lines -/

/-- A text is one line, or a line and a line feed before another text. -/
@[elab_as_elim]
theorem induction_on_lines {motive : List Char → Prop}
    (last : ∀ line, '\n' ∉ line → motive line)
    (step : ∀ line rest, '\n' ∉ line → motive rest → motive (line ++ '\n' :: rest))
    (text : List Char) : motive text := by
  -- The text left over is shorter, not a tail of the constructors.
  induction hlen : text.length using Nat.strong_induction_on generalizing text with
  | _ n ih =>
    by_cases hmem : '\n' ∈ text
    · obtain ⟨line, rest, rfl, hline⟩ := List.eq_append_cons_of_mem hmem
      rw [List.length_append, List.length_cons] at hlen
      exact step line rest hline (ih rest.length (by omega) rest rfl)
    · exact last text hmem

theorem splitAt_append {sep : Char} {line : List Char} (h : sep ∉ line) (rest : List Char) :
    splitAt sep (line ++ sep :: rest) = line :: splitAt sep rest := by
  induction line with
  | nil => simp [splitAt]
  | cons c line ih =>
    rw [List.mem_cons, not_or] at h
    simp [splitAt, Ne.symm h.1, ih h.2]

theorem splitAt_of_not_mem {sep : Char} {cs : List Char} (h : sep ∉ cs) :
    splitAt sep cs = [cs] := by
  induction cs with
  | nil => rfl
  | cons c cs ih =>
    rw [List.mem_cons, not_or] at h
    simp [splitAt, Ne.symm h.1, ih h.2]

theorem sep_not_mem_of_mem_splitAt {sep : Char} {cs piece : List Char}
    (h : piece ∈ splitAt sep cs) : sep ∉ piece := by
  induction cs generalizing piece with
  | nil =>
    simp only [splitAt, List.mem_singleton] at h
    simp [h]
  | cons c cs ih =>
    rw [splitAt] at h
    split at h
    · rcases List.mem_cons.1 h with rfl | h
      · simp
      · exact ih h
    · rename_i hc
      split at h
      · rename_i hs
        exact absurd hs (splitAt_ne_nil sep cs)
      · rename_i first pieces hs
        rw [hs] at ih
        rcases List.mem_cons.1 h with rfl | h
        · rw [List.mem_cons, not_or]
          exact ⟨Ne.symm hc, ih List.mem_cons_self⟩
        · exact ih (List.mem_cons_of_mem _ h)

theorem splitAt_append_last {sep : Char} {last : List Char} (h : sep ∉ last) (cs : List Char) :
    splitAt sep (cs ++ sep :: last) = splitAt sep cs ++ [last] := by
  induction cs with
  | nil => simp [splitAt, splitAt_of_not_mem h]
  | cons c cs ih =>
    rw [List.cons_append, splitAt, splitAt, ih]
    split
    · rfl
    · cases hs : splitAt sep cs with
      | nil => exact absurd hs (splitAt_ne_nil sep cs)
      | cons piece pieces => rfl

/-- The last piece of a text is all of it, or what follows a separator. -/
theorem exists_of_getLast?_splitAt {sep : Char} {cs last : List Char}
    (h : (splitAt sep cs).getLast? = some last) :
    cs = last ∨ ∃ before, cs = before ++ sep :: last := by
  by_cases hm : sep ∈ cs
  · obtain ⟨after, before, hr, hn⟩ := List.eq_append_cons_of_mem (List.mem_reverse.2 hm)
    have hcs : cs = before.reverse ++ sep :: after.reverse := by
      rw [← List.reverse_reverse cs, hr]
      simp
    rw [hcs, splitAt_append_last (by simpa using hn), List.getLast?_concat] at h
    exact .inr ⟨before.reverse, by rw [hcs, Option.some.inj h]⟩
  · rw [splitAt_of_not_mem hm] at h
    exact .inl (by simpa using h)

/-- The pieces of a text have all its characters but the separators. -/
theorem exists_mem_splitAt_iff {sep c : Char} (hc : c ≠ sep) {cs : List Char} :
    (∃ piece ∈ splitAt sep cs, c ∈ piece) ↔ c ∈ cs := by
  induction cs with
  | nil => simp [splitAt]
  | cons d cs ih =>
    rw [splitAt]
    split
    · rename_i hd
      simp [ih, hd, hc]
    · cases hs : splitAt sep cs with
      | nil => exact absurd hs (splitAt_ne_nil sep cs)
      | cons piece pieces =>
        rw [hs] at ih
        simp only [List.mem_cons, exists_eq_or_imp] at ih ⊢
        rw [← ih, or_assoc]

theorem dropReturn_isPrefix (cs : List Char) : dropReturn cs <+: cs := by
  unfold dropReturn
  split
  · exact List.dropLast_prefix cs
  · exact List.prefix_refl cs

/-- What stands before the end of a line does not matter to its carriage return. -/
theorem dropReturn_append {c : List Char} (hc : c ≠ []) (cs : List Char) :
    dropReturn (cs ++ c) = cs ++ dropReturn c := by
  unfold dropReturn
  have hl : (cs ++ c).getLast? = c.getLast? := by
    rw [List.getLast?_append, List.getLast?_eq_some_getLast hc]
    rfl
  rw [hl]
  split
  · rw [List.dropLast_append_of_ne_nil hc]
  · rfl

theorem mem_endSegments {line : List Char} {pieces : List (List Char)}
    (h : line ∈ endSegments pieces) : ∃ piece ∈ pieces, line <+: piece := by
  induction pieces with
  | nil => simp [endSegments] at h
  | cons piece rest ih =>
    cases rest with
    | nil =>
      simp only [endSegments] at h
      split at h
      · simp at h
      · exact ⟨piece, List.mem_cons_self, by simp_all⟩
    | cons next rest =>
      rw [endSegments_of_tail (by simp)] at h
      rcases List.mem_cons.1 h with rfl | h
      · exact ⟨piece, List.mem_cons_self, dropReturn_isPrefix piece⟩
      · obtain ⟨found, hf, hp⟩ := ih h
        exact ⟨found, List.mem_cons_of_mem _ hf, hp⟩

theorem newline_not_mem_of_mem_lines {cs line : List Char} (h : line ∈ lines cs) :
    '\n' ∉ line := by
  obtain ⟨piece, hp, hl⟩ := mem_endSegments h
  exact fun hm => sep_not_mem_of_mem_splitAt hp (hl.subset hm)

theorem segments_append {line : List Char} (h : '\n' ∉ line) (rest : List Char) :
    segments (line ++ '\n' :: rest) = line :: segments rest :=
  splitAt_append h rest

theorem lines_append {line : List Char} (h : '\n' ∉ line) (rest : List Char) :
    lines (line ++ '\n' :: rest) = dropReturn line :: lines rest := by
  rw [lines, segments_append h]
  exact endSegments_of_tail (segments_ne_nil rest)

/-- Only the characters that end lines are in none of them. -/
theorem exists_mem_lines {c : Char} (hn : c ≠ '\n') (hr : c ≠ '\r') {text : List Char}
    (hc : c ∈ text) : ∃ line ∈ lines text, c ∈ line := by
  induction text using induction_on_lines with
  | last line hl =>
    have hline : lines line = [line] := by
      rw [lines, segments, splitAt_of_not_mem hl, endSegments, if_neg]
      rw [List.isEmpty_iff]
      exact List.ne_nil_of_mem hc
    exact ⟨line, by rw [hline]; exact List.mem_singleton_self line, hc⟩
  | step line rest hl ih =>
    rw [lines_append hl]
    obtain hc | hc := List.mem_append.1 hc
    · refine ⟨dropReturn line, List.mem_cons_self, ?_⟩
      unfold dropReturn
      split
      · rename_i hlast
        obtain ⟨init, rfl⟩ := List.getLast?_eq_some_iff.1 hlast
        rw [List.dropLast_concat]
        simpa [hr] using hc
      · exact hc
    · obtain ⟨found, hf, hm⟩ := ih ((List.mem_cons.1 hc).resolve_left hn)
      exact ⟨found, List.mem_cons_of_mem _ hf, hm⟩

theorem trim_dropReturn (cs : List Char) : trim (dropReturn cs) = trim cs := by
  unfold dropReturn
  split
  · rename_i hr
    obtain ⟨init, rfl⟩ := List.getLast?_eq_some_iff.1 hr
    have hblank : ∀ c ∈ ['\r'], isBlank c = true := List.forall_mem_singleton.2 rfl
    rw [List.dropLast_concat, trim_append hblank]
  · rfl

/-- But for the blanks around them, the two readings of a text have the same lines. -/
theorem trim_getElem?_lines (text : List Char) (i : Nat) :
    trim ((lines text)[i]?.getD []) = trim ((segments text)[i]?.getD []) := by
  induction text using induction_on_lines generalizing i with
  | last line h =>
    rw [lines, segments, splitAt_of_not_mem h, endSegments]
    split
    · rename_i he
      rw [List.isEmpty_iff.1 he]
      cases i <;> rfl
    · rfl
  | step line rest h ih =>
    rw [lines_append h, segments_append h]
    cases i with
    | zero => exact trim_dropReturn line
    | succ i => exact ih i

/-- Some lines, each with a line feed after it. -/
def terminated (above : List (List Char)) : List Char :=
  above.flatMap (· ++ ['\n'])

theorem terminated_cons_append (line : List Char) (above : List (List Char)) (rest : List Char) :
    terminated (line :: above) ++ rest = line ++ '\n' :: (terminated above ++ rest) := by
  simp [terminated]

theorem segments_terminated_append {above : List (List Char)} (h : ∀ line ∈ above, '\n' ∉ line)
    (rest : List Char) : segments (terminated above ++ rest) = above ++ segments rest := by
  induction above with
  | nil => rfl
  | cons line above ih =>
    rw [List.forall_mem_cons] at h
    rw [terminated_cons_append, segments_append h.1, ih h.2]
    rfl

/-- Before a line stand the lines above it, each with a line feed. After the last stands nothing,
and after any other a line feed. -/
theorem exists_eq_terminated_append (text : List Char) {i : Nat}
    (hi : i < (segments text).length) :
    ∃ rest, text = terminated ((segments text).take i) ++ ((segments text)[i] ++ rest) ∧
      (i + 1 = (segments text).length ∧ rest = [] ∨
        i + 1 < (segments text).length ∧ ∃ more, rest = '\n' :: more) := by
  induction text using induction_on_lines generalizing i with
  | last line h =>
    simp only [segments, splitAt_of_not_mem h, List.length_singleton, Nat.lt_one_iff] at hi ⊢
    subst hi
    exact ⟨[], by simp [terminated], .inl ⟨rfl, rfl⟩⟩
  | step line text h ih =>
    simp only [segments_append h, List.length_cons] at hi ⊢
    cases i with
    | zero =>
      have hpos : 0 < (segments text).length := List.length_pos_iff.2 (segments_ne_nil text)
      exact ⟨'\n' :: text, rfl, .inr ⟨by omega, text, rfl⟩⟩
    | succ i =>
      obtain ⟨rest, he, hrest⟩ := ih (i := i) (by omega)
      refine ⟨rest, ?_, hrest.imp (.imp_left (congrArg (· + 1))) (.imp_left Nat.succ_lt_succ)⟩
      rw [List.take_succ_cons, terminated_cons_append, List.getElem_cons_succ, ← he]

theorem terminated_take_succ {pieces : List (List Char)} {i : Nat} (hi : i < pieces.length) :
    terminated (pieces.take (i + 1)) = terminated (pieces.take i) ++ (pieces[i] ++ ['\n']) := by
  rw [List.take_succ_eq_append_getElem hi, terminated, List.flatMap_append]
  simp [terminated]

/-- Lines before a text are before the lines of the text. -/
theorem lines_terminated_append {above : List (List Char)} (h : ∀ line ∈ above, '\n' ∉ line)
    (rest : List Char) : lines (terminated above ++ rest) = above.map dropReturn ++ lines rest := by
  induction above with
  | nil => rfl
  | cons line above ih =>
    rw [List.forall_mem_cons] at h
    rw [terminated_cons_append, lines_append h.1, ih h.2]
    rfl

end Findings.Text
