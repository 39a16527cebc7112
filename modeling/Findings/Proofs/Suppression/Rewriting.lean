import Findings.Proofs.Suppression.Runs

/-!
# Rewriting a suppression file

Every change of a suppression file renders all its records anew, also those that the change is not
about. A record comes back from its rendered line as it was only if its fields do not hold, or end
in, what reading takes for the end of a field (`Carried`). A record that was read before is nearly
always of that kind: only the ends of its fields may be other than they would be written
(`EndsPlain`), because blanks between them and the separator have been trimmed, or because the line
ended in more than one carriage return or in one without a line feed.

* `carried_iff`: a record is carried iff it takes one line and is read from it.
* `parse_render_eq_ok_iff`: records are read as they were rendered iff each of them is carried.
* `carried_iff_endsPlain`: for a record that was read, the ends of its fields decide.
* `parse_render_of_parse`: when rewriting a file keeps its records, alone and in an addition or a
  removal.
-/

namespace Findings.Suppression

open Text
open SuppressionStore (PlainText Exact parse_render_iff_exact plainText_iff_fieldText)
open SuppressionFile (append remove load)

/-! ## What a file can carry -/

/-- Whether a record can stand in a suppression file as it is: it has a hash, hash and file name
are plain texts, and the comment takes one line and leaves the end of the line to the file. -/
structure Carried (s : Suppression) : Prop where
  hash_ne : s.hash ≠ ""
  hash : PlainText s.hash
  fileName : PlainText s.fileName
  comment : '\n' ∉ s.comment.toList
  comment_end : s.comment.toList.getLast? ≠ some '\r'

variable {s : Suppression} {records : List Suppression} {content path : String}

theorem Carried.storable (h : s.Carried) : s.Storable :=
  ⟨h.hash_ne, plainText_iff_fieldText.1 h.hash, plainText_iff_fieldText.1 h.fileName⟩

theorem dropReturn_eq_self_iff {cs : List Char} :
    dropReturn cs = cs ↔ cs.getLast? ≠ some '\r' := by
  unfold dropReturn
  split
  · rename_i hl
    have hlen := List.length_pos_of_mem (List.mem_of_getLast? hl)
    refine iff_of_false (fun he => ?_) (not_not_intro hl)
    have := congrArg List.length he
    rw [List.length_dropLast] at this
    omega
  · rename_i hl
    exact iff_of_true rfl hl

theorem carried_iff : s.Carried ↔ s.OneLine ∧ s.reread = .ok s := by
  constructor
  · intro h
    refine ⟨oneLine_iff.2 ⟨h.hash.2.1, h.fileName.2.1, h.comment⟩, ?_⟩
    rw [reread_of_storable h.storable, dropReturn_eq_self_iff.2 h.comment_end,
      String.ofList_toList]
  · rintro ⟨h1, h⟩
    obtain ⟨hne, hh, hf⟩ := ((weight_le_of_reread h1 h).2 rfl).2.2
    obtain ⟨-, -, hc⟩ := oneLine_iff.1 h1
    refine ⟨hne, plainText_iff_fieldText.2 hh, plainText_iff_fieldText.2 hf, hc, ?_⟩
    rw [reread_of_storable ⟨hne, hh, hf⟩, Except.ok.injEq] at h
    have hcomment := congrArg (fun r => r.comment.toList) h
    rw [String.toList_ofList] at hcomment
    exact dropReturn_eq_self_iff.1 hcomment

theorem exact_iff_carried : Exact records ↔ ∀ s ∈ records, s.Carried :=
  forall₂_congr fun _ _ => carried_iff.symm

/-- Records are read as they were rendered if and only if each of them is carried. -/
theorem parse_render_eq_ok_iff :
    parse (render records) path = .ok records ↔ ∀ s ∈ records, s.Carried := by
  rw [← exact_iff_carried]
  constructor
  · intro h
    -- What is read takes one line each, so these records do.
    have hline := oneLine_of_parseChars (SuppressionFile.parse_eq_ok_iff.1 h)
    exact (parse_render_iff_exact hline).1 h
  · exact Exact.parse_rendered

/-! ## Records that were read -/

/-- Whether the fields of a record end as they may be written: hash and file name not in half a
separator, and the comment not in a carriage return. -/
def EndsPlain (s : Suppression) : Prop :=
  s.hash.toList.getLast? ≠ some '|' ∧ s.fileName.toList.getLast? ≠ some '|' ∧
    s.comment.toList.getLast? ≠ some '\r'

instance : DecidablePred EndsPlain := fun _ => inferInstanceAs (Decidable (_ ∧ _ ∧ _))

theorem trim_trim (cs : List Char) : trim (trim cs) = trim cs := by
  rw [trim, trimStart_trim, trimEnd_trim]

/-- A field that was read, and does not end in half a separator, is written as it was read. -/
theorem plainText_of_cut? {line field rest : List Char} {text : String}
    (hc : cut? separator line = some (field, rest)) (ht : text.toList = trim field)
    (hn : '\n' ∉ text.toList) (hl : text.toList.getLast? ≠ some '|') : PlainText text := by
  rw [plainText_iff_fieldText, fieldText_iff]
  refine ⟨by rw [ht, trim_trim], hn, fun hs => ?_, hl⟩
  obtain ⟨-, hfirst⟩ := (cut?_eq_some_iff separator_ne_nil).1 hc
  have hfield : separator <:+: field ++ separator.dropLast :=
    (hs.trans (ht ▸ isInfix_trim field)).trans (List.infix_append [] field _)
  rw [occurs_iff_isInfix.2 hfield] at hfirst
  cases hfirst

theorem carried_iff_endsPlain {line : List Char} (h : ofLine line = .ok s) (hl : '\n' ∉ line) :
    s.Carried ↔ s.EndsPlain := by
  obtain ⟨hash, rest, fileName, hc, hc', hne, hh, hf⟩ := ofLine_eq_ok h
  obtain ⟨hnh, hnf, hnc⟩ := oneLine_iff.1 (oneLine_of_ofLine h hl)
  constructor
  · exact fun hs => ⟨hs.hash.2.2.2, hs.fileName.2.2.2, hs.comment_end⟩
  · rintro ⟨hlh, hlf, hlc⟩
    refine ⟨fun he => hne ?_, plainText_of_cut? hc hh hnh hlh, plainText_of_cut? hc' hf hnf hlf,
      hnc, hlc⟩
    rw [← hh, he]
    rfl

theorem carried_iff_of_parse (h : parse content path = .ok records) :
    ∀ s ∈ records, s.Carried ↔ s.EndsPlain := by
  intro s hs
  obtain ⟨line, hl, ho⟩ :=
    exists_ofLine_of_parseChars (SuppressionFile.parse_eq_ok_iff.1 h) s hs
  exact carried_iff_endsPlain ho hl

/-- Any of the records that were read are read again after they were rendered iff their fields end
as they may be written. -/
theorem parse_render_sublist_iff (h : parse content path = .ok records) {kept : List Suppression}
    (hk : kept.Sublist records) :
    parse (render kept) path = .ok kept ↔ ∀ s ∈ kept, s.EndsPlain := by
  have hline := oneLine_of_parseChars (SuppressionFile.parse_eq_ok_iff.1 h)
  rw [parse_render_iff_exact fun s hs => hline s (hk.subset hs), exact_iff_carried]
  exact forall₂_congr fun s hs => carried_iff_of_parse h s (hk.subset hs)

/-! ## Files -/

/-- Records after others come back as they do alone. -/
theorem parse_render_append_iff (h : ∀ s ∈ records, s.OneLine) {more added : List Suppression} :
    parse (render (records ++ more)) path = .ok (records ++ added) ↔
      (∀ s ∈ records, s.Carried) ∧ parse (render more) path = .ok added := by
  have hr : renderChars (records ++ more) = renderChars records ++ renderChars more :=
    List.flatMap_append
  rw [SuppressionFile.parse_eq_ok_iff, SuppressionFile.parse_eq_ok_iff, render, render,
    String.toList_ofList, String.toList_ofList, hr, parseChars_renderChars_append_iff h,
    ← exact_iff_carried]
  constructor
  · rintro ⟨kept, added', he, hk, ha⟩
    have hlen : records.length = kept.length := by simpa using congrArg List.length hk
    obtain ⟨rfl, rfl⟩ := List.append_inj he hlen
    exact ⟨fun s hs => ⟨h s hs, List.map_inj_left.1 hk s hs⟩, ha⟩
  · rintro ⟨hx, ha⟩
    exact ⟨records, added, rfl, List.map_congr_left fun s hs => (hx s hs).2, ha⟩

theorem eq_of_withRecord {record : Suppression} {changed : List Suppression}
    (h : SuppressionFile.withRecord record records = some changed) :
    changed = records ++ [record] := by
  unfold SuppressionFile.withRecord at h
  split at h
  · cases h
  · exact (Option.some.inj h).symm

theorem eq_of_withoutRecords {hash fileName : String} {changed : List Suppression}
    (h : SuppressionFile.withoutRecords hash fileName records = some changed) :
    changed = records.filter (fun s => ¬ (s.hash = hash ∧ s.fileName = fileName)) ∧
      changed.length < records.length := by
  unfold SuppressionFile.withoutRecords at h
  simp only at h
  split at h
  · cases h
  · rename_i hlen
    obtain rfl := Option.some.inj h
    exact ⟨SuppressionStore.filter_not_covers hash fileName records,
      Nat.lt_of_le_of_ne (List.length_filter_le ..) hlen⟩

variable {fs after : FileSystem}

/-- After an update that changed the records of a file, it is loaded from their rendered text. -/
theorem load_of_update {change : List Suppression → Option (List Suppression)}
    (hp : parse content path = .ok records) (ht : fs.readText path = .ok content)
    (hu : SuppressionFile.update fs path change = (.ok true, after)) :
    ∃ changed, change records = some changed ∧
      load after path = parse (render changed) path := by
  obtain ⟨place, text, found, hr, -, hn, hf, hchanged, rfl⟩ := SuppressionFile.update_eq_ok hu
  obtain ⟨place', hr', hn'⟩ := FileSystem.readText_eq_ok ht
  cases hr.symm.trans hr'
  -- The text that was revised is the one that was read.
  obtain rfl : text = content := by
    obtain hn | ⟨hn, -⟩ := hn
    · exact String.toByteArray_inj.1 (Node.file.inj (Option.some.inj (hn.symm.trans hn')))
    · cases hn.symm.trans hn'
  cases hp.symm.trans hf
  cases hc : change records with
  | none =>
    rw [hc] at hchanged
    cases hchanged
  | some changed =>
    have hread := FileSystem.readText_put hr rfl (by simp [hn']) (render changed)
    exact ⟨changed, rfl, SuppressionFile.load_of_readText hread⟩

/-- What parses is rendered as a text of the same records if and only if the fields of each of them
end as they may be written. An addition that changes a file keeps the records that were there on
the same condition, whatever comes back of the new one; a removal keeps those it leaves if they meet
it. -/
theorem parse_render_of_parse (h : parse content path = .ok records) :
    (parse (render records) path = .ok records ↔ ∀ s ∈ records, s.EndsPlain) ∧
    ∀ fs, fs.readText path = .ok content →
      (∀ record after, append fs path record = (.ok true, after) → ∀ added,
        (load after path = .ok (records ++ added) ↔
          (∀ s ∈ records, s.EndsPlain) ∧ parse (render [record]) path = .ok added)) ∧
      ∀ hash fileName after, remove fs path hash fileName = (.ok true, after) →
        let kept := records.filter fun s => ¬ (s.hash = hash ∧ s.fileName = fileName)
        (load after path = .ok kept ↔ ∀ s ∈ kept, s.EndsPlain) := by
  refine ⟨parse_render_sublist_iff h (List.Sublist.refl records), fun fs ht =>
    ⟨fun record after ha added => ?_, fun hash fileName after hr => ?_⟩⟩
  · obtain ⟨changed, hc, hl⟩ := load_of_update h ht ha
    have hline := oneLine_of_parseChars (SuppressionFile.parse_eq_ok_iff.1 h)
    rw [hl, eq_of_withRecord hc, parse_render_append_iff hline]
    exact and_congr_left fun _ => forall₂_congr (carried_iff_of_parse h)
  · obtain ⟨changed, hc, hl⟩ := load_of_update h ht hr
    intro kept
    rw [hl, show changed = kept from (eq_of_withoutRecords hc).1]
    exact parse_render_sublist_iff h List.filter_sublist

/-- The root directory with one file. -/
def fileWith (content : String) : FileSystem :=
  (FileSystem.empty []).put ["s"] (.file content.toUTF8)

theorem readText_fileWith (content : String) : (fileWith content).readText "s" = .ok content :=
  FileSystem.readText_alone (by rfl) content

theorem accepts_fileWith (content : String) : (fileWith content).Accepts "s" :=
  FileSystem.accepts_of_device rfl "s"

/-- Removing records that are there changes the file. -/
theorem exists_remove (hash fileName : String) {changed : List Suppression}
    (ha : fs.Accepts path) (hp : parse content path = .ok records)
    (ht : fs.readText path = .ok content)
    (hc : SuppressionFile.withoutRecords hash fileName records = some changed) :
    ∃ after, remove fs path hash fileName = (.ok true, after) := by
  obtain ⟨after, text, -, h⟩ := SuppressionFile.readText_update
    ((SuppressionFile.load_of_readText ht).trans hp) (ha.openForWriting_ne_error ht true)
    ha.completes (SuppressionFile.withoutRecords hash fileName)
  rw [hc] at h
  exact ⟨after, h.1⟩

/-- Blanks around fields, a line end of two characters, a blank line, a separator in a comment, and
no line feed at the end. -/
def handEdited : String :=
  " h ||a.c\t||x||y\r\n \nk|| b.c||"

theorem parse_render_of_parse_handEdited :
    parse handEdited "s" = .ok [⟨"h", "a.c", "x||y"⟩, ⟨"k", "b.c", ""⟩] ∧
      (fileWith handEdited).readText "s" = .ok handEdited ∧
      ∃ after, remove (fileWith handEdited) "s" "k" "b.c" = (.ok true, after) ∧
        load after "s" = .ok [⟨"h", "a.c", "x||y"⟩] := by
  have hp : parse handEdited "s" = .ok [⟨"h", "a.c", "x||y"⟩, ⟨"k", "b.c", ""⟩] := by rfl
  have ht := readText_fileWith handEdited
  obtain ⟨after, hr⟩ := exists_remove "k" "b.c" (accepts_fileWith handEdited) hp ht (by rfl)
  obtain ⟨-, hfiles⟩ := parse_render_of_parse hp
  have hload := (hfiles _ ht).2 "k" "b.c" after hr
  exact ⟨hp, ht, after, hr, hload.2 (by decide)⟩

/-- A blank between a bar and the separator, and a line below it. -/
def barred : String :=
  "a| ||f.c||keep\nh||a.c||x\n"

/-- The blank after the bar is trimmed, and then the bar is part of the separator. So the first of
the two records is another one once they were rendered, also after the second was removed. -/
theorem not_parse_render_barred :
    parse barred "s" = .ok [⟨"a|", "f.c", "keep"⟩, ⟨"h", "a.c", "x"⟩] ∧
      parse (render [⟨"a|", "f.c", "keep"⟩, ⟨"h", "a.c", "x"⟩]) "s" =
        .ok [⟨"a", "|f.c", "keep"⟩, ⟨"h", "a.c", "x"⟩] ∧
      (⟨"a", "|f.c", "keep"⟩ : Suppression) ≠ ⟨"a|", "f.c", "keep"⟩ ∧
      ∃ after, remove (fileWith barred) "s" "h" "a.c" = (.ok true, after) ∧
        load after "s" = .ok [⟨"a", "|f.c", "keep"⟩] := by
  have hp : parse barred "s" = .ok [⟨"a|", "f.c", "keep"⟩, ⟨"h", "a.c", "x"⟩] := by rfl
  have ht := readText_fileWith barred
  obtain ⟨after, hr⟩ := exists_remove "h" "a.c" (accepts_fileWith barred) hp ht (by rfl)
  obtain ⟨changed, hc, hl⟩ := load_of_update hp ht hr
  obtain rfl : [⟨"a|", "f.c", "keep"⟩] = changed := Option.some.inj hc
  exact ⟨hp, by rfl, by decide, after, hr, hl⟩

end Findings.Suppression
