import Findings.Proofs.Result
import Findings.Proofs.Text
import Findings.Suppression.Record

/-!
# What is read of written suppressions

A record is written as it is, and read by cutting and trimming. So its hash and file name come back
only if they are plain text (`Storable`); otherwise what comes back is shorter.

* `reread_of_storable`, `weight_le_of_reread`: the two cases, for one record.
* `parseChars_renderChars_iff`: a rendered file is read record by record, if each takes one line.
* `parseChars_renderChars_append_iff`: what stands behind such records is read as it is alone.
* `exists_ofLine_of_parseChars`, `oneLine_of_parseChars`: every record that was read was read from
  one line, and takes one.
* `storable_of_survive`: records that cover the same findings once they were written and read are
  storable, each of them.
-/

namespace Findings.Suppression

open Text

/-! ## One record -/

/-- Whether a field is read as it was written: it has no blanks at its ends and no line feed, and
it neither holds a separator nor ends in half of one. -/
def FieldText (cs : List Char) : Prop :=
  trim cs = cs ∧ '\n' ∉ cs ∧ occurs separator (cs ++ ['|']) = false

/-- Whether the hash and the file name of a record are read as they were written. -/
def Storable (s : Suppression) : Prop :=
  s.hash ≠ "" ∧ FieldText s.hash.toList ∧ FieldText s.fileName.toList

instance (s : Suppression) : Decidable s.Storable :=
  inferInstanceAs (Decidable (_ ∧ (_ ∧ _ ∧ _) ∧ (_ ∧ _ ∧ _)))

/-- Whether a record takes one line. -/
def OneLine (s : Suppression) : Prop :=
  '\n' ∉ s.lineChars

/-- The record that is read from the line of a record. -/
def reread (s : Suppression) : Except LineDefect Suppression :=
  ofLine (dropReturn s.lineChars)

/-- A measure of the two fields that reading never increases. The hash counts double, because what
is cut off it moves into the file name. -/
def weight (s : Suppression) : Nat :=
  2 * s.hash.toList.length + s.fileName.toList.length

/-- What makes a field text, with the half separator at its end apart. -/
theorem fieldText_iff {cs : List Char} :
    FieldText cs ↔ trim cs = cs ∧ '\n' ∉ cs ∧ ¬ separator <:+: cs ∧ cs.getLast? ≠ some '|' := by
  have hlast : separator <:+ cs ++ ['|'] ↔ cs.getLast? = some '|' := by
    rw [show separator = ['|'] ++ ['|'] from rfl, List.suffix_append_self_iff,
      List.getLast?_eq_some_iff]
    exact exists_congr fun _ => eq_comm
  rw [FieldText, ← Bool.not_eq_true, occurs_iff_isInfix, List.infix_concat_iff, hlast, not_or,
    and_comm (a := ¬ cs.getLast? = some '|')]

variable {s r : Suppression}

theorem lineChars_eq (s : Suppression) :
    s.lineChars =
      s.hash.toList ++ (separator ++ (s.fileName.toList ++ (separator ++ s.comment.toList))) := by
  simp [lineChars]

/-- Only the comment can lose a carriage return. -/
theorem dropReturn_lineChars (s : Suppression) :
    dropReturn s.lineChars =
      s.hash.toList ++ (separator ++ (s.fileName.toList
        ++ (separator ++ dropReturn s.comment.toList))) := by
  have hsep : dropReturn (separator ++ s.comment.toList) =
      separator ++ dropReturn s.comment.toList := by
    by_cases hc : s.comment.toList = []
    · rw [hc]
      rfl
    · exact dropReturn_append hc separator
  have hne : separator ++ s.comment.toList ≠ [] := by simp [separator]
  rw [lineChars_eq, ← hsep, dropReturn_append (by simp [separator]),
    dropReturn_append (by simp [separator]), dropReturn_append hne]

theorem separator_ne_nil : separator ≠ [] := by
  simp [separator]

theorem oneLine_iff :
    s.OneLine ↔ '\n' ∉ s.hash.toList ∧ '\n' ∉ s.fileName.toList ∧ '\n' ∉ s.comment.toList := by
  simp [OneLine, lineChars_eq, separator]

/-- A storable record is read as it was written, but for a carriage return at its end. -/
theorem reread_of_storable (h : s.Storable) :
    s.reread = .ok { s with comment := .ofList (dropReturn s.comment.toList) } := by
  obtain ⟨hne, ⟨ht, -, ho⟩, ht', -, ho'⟩ := h
  have hhash : s.hash.toList.isEmpty = false := by simpa using hne
  rw [reread, dropReturn_lineChars, ofLine, cut?_of_not_occurs separator_ne_nil ho]
  simp only
  rw [cut?_of_not_occurs separator_ne_nil ho']
  simp only [ht, ht', hhash, Bool.false_eq_true, if_false, String.ofList_toList]

/-- How a record was read: what was cut off the line, and trimmed but for the comment. -/
theorem ofLine_eq_ok {line : List Char} (h : ofLine line = .ok r) :
    ∃ hash rest fileName,
      cut? separator line = some (hash, rest) ∧
      cut? separator rest = some (fileName, r.comment.toList) ∧ trim hash ≠ [] ∧
      r.hash.toList = trim hash ∧ r.fileName.toList = trim fileName := by
  unfold ofLine at h
  split at h
  · simp at h
  · rename_i hash rest hc
    split at h
    · simp at h
    · rename_i fileName comment hc'
      split at h
      · simp at h
      · rename_i he
        simp only [Except.ok.injEq] at h
        subst h
        exact ⟨hash, rest, fileName, hc, by simpa using hc', by simpa using he, by simp, by simp⟩

/-- Wherever a line of two separators is cut first, the second one is still there. -/
theorem rest_of_cut? {a b c hash rest : List Char}
    (h : cut? separator (a ++ (separator ++ (b ++ (separator ++ c)))) = some (hash, rest)) :
    rest = (a ++ (separator ++ b)).drop (hash.length + 2) ++ (separator ++ c) := by
  have hle := length_le_of_cut? h
  have hline : hash ++ (separator ++ rest) = (a ++ (separator ++ b)) ++ (separator ++ c) := by
    have happ := append_of_cut? h
    simpa only [List.append_assoc] using happ
  have hlen : (hash ++ separator).length = hash.length + 2 := by simp [separator]
  have hd := congrArg (List.drop (hash.length + 2)) hline
  rw [← List.append_assoc, List.drop_left' hlen] at hd
  rw [hd, List.drop_append_of_le_length]
  simp only [List.length_append, separator, List.length_cons, List.length_nil]
  omega

/-- What is read weighs no more than what was written, and as much only if it is the same and the
record is storable. -/
theorem weight_le_of_reread (h1 : s.OneLine) (h : s.reread = .ok r) :
    r.weight ≤ s.weight ∧ (r.weight = s.weight →
      r.hash = s.hash ∧ r.fileName = s.fileName ∧ s.Storable) := by
  obtain ⟨hash, rest, fileName, hc, hc', hne, hh, hn⟩ := ofLine_eq_ok h
  rw [dropReturn_lineChars] at hc
  have hhash := length_le_of_cut? hc
  have hrest := rest_of_cut? hc
  rw [hrest] at hc'
  have hname := length_le_of_cut? hc'
  simp only [List.length_drop, List.length_append, separator, List.length_cons,
    List.length_nil] at hname
  have hth := length_trim_le hash
  have htn := length_trim_le fileName
  simp only [weight, hh, hn]
  refine ⟨by omega, fun hw => ?_⟩
  have hlen : hash.length = s.hash.toList.length := by omega
  have hlen' : fileName.length = s.fileName.toList.length := by omega
  have htrim : trim hash = hash := trim_eq_self_of_length (by omega)
  have htrim' : trim fileName = fileName := trim_eq_self_of_length (by omega)
  have hline := append_of_cut? hc
  rw [List.append_assoc] at hline
  obtain ⟨he, hsame⟩ := List.append_inj hline hlen
  have hrest' := List.append_cancel_left hsame
  rw [← hrest, hrest'] at hc'
  have happ := append_of_cut? hc'
  rw [List.append_assoc] at happ
  obtain ⟨he', -⟩ := List.append_inj happ hlen'
  subst he he'
  obtain ⟨hnl, hnl', -⟩ := oneLine_iff.1 h1
  have hempty : s.hash ≠ "" := by
    intro hs
    rw [htrim, hs] at hne
    exact hne rfl
  exact ⟨String.toList_inj.1 (hh.trans htrim), String.toList_inj.1 (hn.trans htrim'), hempty,
    ⟨htrim, hnl, not_occurs_of_cut? separator_ne_nil hc⟩,
    htrim', hnl', not_occurs_of_cut? separator_ne_nil hc'⟩

/-! ## A whole file -/

variable {records records' : List Suppression}

theorem trim_lineChars_ne_nil (s : Suppression) : trim (dropReturn s.lineChars) ≠ [] := by
  rw [dropReturn_lineChars, Ne, trim_eq_nil_iff]
  intro h
  have hbar := h '|' (by simp [separator])
  exact absurd hbar (by decide)

theorem ofLines_map_iff (number : Nat) :
    ofLines number (records.map fun s => dropReturn s.lineChars) = .ok records' ↔
      records.map reread = records'.map .ok := by
  induction records generalizing number records' with
  | nil => cases records' <;> simp [ofLines]
  | cons s records ih =>
    have hblank : (trim (dropReturn s.lineChars)).isEmpty = false := by
      simpa using trim_lineChars_ne_nil s
    simp only [List.map_cons, ofLines, hblank, Bool.false_eq_true, if_false]
    cases hr : ofLine (dropReturn s.lineChars) with
    | error defect => cases records' <;> simp [reread, hr]
    | ok r =>
      simp only [map_eq_ok_iff, ih]
      cases records' with
      | nil => simp
      | cons r' records' =>
        simp only [List.map_cons, reread, hr, List.cons.injEq, Except.ok.injEq]
        constructor
        · rintro ⟨rest, hrest, rfl, rfl⟩
          exact ⟨rfl, hrest⟩
        · rintro ⟨rfl, hrest⟩
          exact ⟨records', hrest, rfl, rfl⟩

/-- Rendered records before a text are lines before the lines of the text. -/
theorem lines_renderChars_append (h : ∀ s ∈ records, s.OneLine) (rest : List Char) :
    lines (renderChars records ++ rest) =
      records.map (fun s => dropReturn s.lineChars) ++ lines rest := by
  have hr : renderChars records = terminated (records.map lineChars) := by
    simp only [renderChars, terminated, List.flatMap_map]
  have hl : ∀ line ∈ records.map lineChars, '\n' ∉ line := by simpa [OneLine] using h
  rw [hr, lines_terminated_append hl, List.map_map]
  rfl

theorem lines_renderChars (h : ∀ s ∈ records, s.OneLine) :
    lines (renderChars records) = records.map fun s => dropReturn s.lineChars := by
  simpa using lines_renderChars_append h []

/-- A rendered file is read record by record. -/
theorem parseChars_renderChars_iff (h : ∀ s ∈ records, s.OneLine) :
    parseChars (renderChars records) = .ok records' ↔ records.map reread = records'.map .ok := by
  rw [parseChars, lines_renderChars h, ofLines_map_iff]

/-- The numbers of the lines are for errors only. -/
theorem ofLines_start {number : Nat} {texts : List (List Char)}
    (h : ofLines number texts = .ok records) (start : Nat) :
    ofLines start texts = .ok records := by
  induction texts generalizing number start records with
  | nil => exact h
  | cons line texts ih =>
    rw [ofLines] at h ⊢
    split at h
    · rename_i hb
      rw [if_pos hb]
      exact ih h _
    · rename_i hb
      rw [if_neg hb]
      cases hl : ofLine line with
      | error defect => simp [hl] at h
      | ok s =>
        simp only [hl] at h ⊢
        obtain ⟨rest, hrest, rfl⟩ := map_eq_ok_iff.1 h
        exact map_eq_ok_iff.2 ⟨rest, ih hrest _, rfl⟩

theorem ofLines_append_eq_ok_iff {number : Nat} {first second : List (List Char)} :
    ofLines number (first ++ second) = .ok records ↔
      ∃ kept added, records = kept ++ added ∧ ofLines number first = .ok kept ∧
        ofLines (number + first.length) second = .ok added := by
  induction first generalizing number records with
  | nil => simp [ofLines]
  | cons line first ih =>
    have hlen : number + (line :: first).length = number + 1 + first.length := by
      rw [List.length_cons]
      omega
    rw [List.cons_append, hlen, ofLines, ofLines]
    split
    · exact ih
    · cases ofLine line with
      | error defect => simp
      | ok s =>
        simp only [map_eq_ok_iff, ih]
        constructor
        · rintro ⟨_, ⟨kept, added, rfl, hk, ha⟩, rfl⟩
          exact ⟨s :: kept, added, rfl, ⟨kept, hk, rfl⟩, ha⟩
        · rintro ⟨_, added, rfl, ⟨kept, hk, rfl⟩, ha⟩
          exact ⟨kept ++ added, ⟨kept, added, rfl, hk, ha⟩, rfl⟩

/-- A text after rendered records is read by itself. -/
theorem parseChars_renderChars_append_iff (h : ∀ s ∈ records, s.OneLine) {rest : List Char} :
    parseChars (renderChars records ++ rest) = .ok records' ↔
      ∃ kept added, records' = kept ++ added ∧ records.map reread = kept.map .ok ∧
        parseChars rest = .ok added := by
  rw [parseChars, lines_renderChars_append h, ofLines_append_eq_ok_iff]
  simp only [ofLines_map_iff]
  constructor
  · rintro ⟨kept, added, he, hk, ha⟩
    exact ⟨kept, added, he, hk, ofLines_start ha 1⟩
  · rintro ⟨kept, added, he, hk, ha⟩
    exact ⟨kept, added, he, hk, ofLines_start ha _⟩

theorem oneLine_of_ofLine {line : List Char} (h : ofLine line = .ok r) (hl : '\n' ∉ line) :
    r.OneLine := by
  obtain ⟨hash, rest, fileName, hc, hc', -, hh, hn⟩ := ofLine_eq_ok h
  rw [← append_of_cut? hc, ← append_of_cut? hc'] at hl
  simp only [List.mem_append, not_or] at hl
  rw [oneLine_iff, hh, hn]
  exact ⟨fun hm => hl.1.1 ((trim_sublist hash).subset hm),
    fun hm => hl.2.1.1 ((trim_sublist fileName).subset hm), hl.2.2⟩

/-- Each record is read from a line of its own. -/
theorem exists_ofLine_of_mem {number : Nat} {texts : List (List Char)}
    (h : ofLines number texts = .ok records) :
    ∀ s ∈ records, ∃ line ∈ texts, ofLine line = .ok s := by
  induction texts generalizing number records with
  | nil =>
    simp only [ofLines, Except.ok.injEq] at h
    simp [← h]
  | cons line texts ih =>
    rw [ofLines] at h
    split at h
    · intro s hs
      obtain ⟨found, hf, ho⟩ := ih h s hs
      exact ⟨found, List.mem_cons_of_mem _ hf, ho⟩
    · split at h
      · simp at h
      · rename_i s hs
        obtain ⟨rest, hrest, rfl⟩ := map_eq_ok_iff.1 h
        refine List.forall_mem_cons.2 ⟨⟨line, List.mem_cons_self, hs⟩, fun r hr => ?_⟩
        obtain ⟨found, hf, ho⟩ := ih hrest r hr
        exact ⟨found, List.mem_cons_of_mem _ hf, ho⟩

/-- Where a record was read from: a line without its end. -/
theorem exists_ofLine_of_parseChars {content : List Char} (h : parseChars content = .ok records) :
    ∀ s ∈ records, ∃ line, '\n' ∉ line ∧ ofLine line = .ok s := by
  intro s hs
  obtain ⟨line, hl, ho⟩ := exists_ofLine_of_mem h s hs
  exact ⟨line, newline_not_mem_of_mem_lines hl, ho⟩

/-- A record that was read takes one line. -/
theorem oneLine_of_parseChars {content : List Char} (h : parseChars content = .ok records) :
    ∀ s ∈ records, s.OneLine := by
  intro s hs
  obtain ⟨line, hl, ho⟩ := exists_ofLine_of_parseChars h s hs
  exact oneLine_of_ofLine ho hl

/-! ## What survives -/

/-- Whether records, once they were written and read, are as many, and cover the same hashes in the
same files. -/
def Survive (records : List Suppression) : Prop :=
  (∀ s ∈ records, s.OneLine) ∧
    ∃ records' : List Suppression, records.map reread = records'.map .ok ∧
      ∀ hash path, records'.any (covers · hash (FilePath.basename path)) =
        records.any (covers · hash (FilePath.basename path))

/-- A record as it is read: its comment has lost a carriage return at its end. -/
def asRead (s : Suppression) : Suppression :=
  { s with comment := .ofList (dropReturn s.comment.toList) }

theorem map_reread_of_storable (h : ∀ s ∈ records, s.Storable) :
    records.map reread = (records.map asRead).map .ok := by
  rw [List.map_map]
  exact List.map_congr_left fun s hs => reread_of_storable (h s hs)

theorem survive_of_storable (h1 : ∀ s ∈ records, s.OneLine) (h : ∀ s ∈ records, s.Storable) :
    Survive records := by
  refine ⟨h1, records.map asRead, map_reread_of_storable h, fun hash path => ?_⟩
  rw [List.any_map]
  rfl

theorem exists_weight_bound (records : List Suppression) :
    ∃ bound, ∀ s ∈ records, s.weight ≤ bound := by
  induction records with
  | nil => exact ⟨0, by simp⟩
  | cons s records ih =>
    obtain ⟨bound, hb⟩ := ih
    refine ⟨max s.weight bound, List.forall_mem_cons.2 ⟨Nat.le_max_left _ _, fun t ht => ?_⟩⟩
    exact Nat.le_trans (hb t ht) (Nat.le_max_right _ _)

theorem covers_self (s : Suppression) : s.covers s.hash s.fileName = true :=
  covers_iff.2 ⟨rfl, rfl⟩

/-- Records for names of files only survive if each of them is storable: the heaviest one that is
not would have to come from a heavier one. -/
theorem storable_of_survive (hn : ∀ s ∈ records, ∃ path, FilePath.basename path = s.fileName)
    (h : Survive records) : ∀ s ∈ records, s.Storable := by
  obtain ⟨h1, records', hmap, hcover⟩ := h
  obtain ⟨bound, hbound⟩ := exists_weight_bound records
  -- Downwards in weight, from the heaviest record.
  suffices hall : ∀ k, ∀ s ∈ records, bound - s.weight = k → s.Storable from
    fun s hs => hall _ s hs rfl
  intro k
  induction k using Nat.strongRecOn with
  | ind k ih =>
    intro s hs hk
    obtain ⟨path, hpath⟩ := hn s hs
    have hany : records.any (covers · s.hash (FilePath.basename path)) = true :=
      List.any_eq_true.2 ⟨s, hs, by rw [hpath]; exact covers_self s⟩
    rw [← hcover, hpath] at hany
    obtain ⟨r, hr, hcov⟩ := List.any_eq_true.1 hany
    obtain ⟨hh, hf⟩ := covers_iff.1 hcov
    have hw : r.weight = s.weight := by simp only [weight, hh, hf]
    have hmem : (.ok r : Except LineDefect Suppression) ∈ records.map reread :=
      hmap ▸ List.mem_map.2 ⟨r, hr, rfl⟩
    obtain ⟨t, ht, htr⟩ := List.mem_map.1 hmem
    obtain ⟨hle, heq⟩ := weight_le_of_reread (h1 t ht) htr
    by_cases hlt : s.weight < t.weight
    · have hts := ih (bound - t.weight) (by have := hbound t ht; omega) t ht rfl
      rw [reread_of_storable hts] at htr
      have hrt : r.weight = t.weight := by
        rw [← Except.ok.inj htr]
        rfl
      omega
    · obtain ⟨hht, hft, hst⟩ := heq (by omega)
      rw [Storable, ← hh, ← hf, hht, hft]
      exact hst

end Findings.Suppression
