import Findings.Proofs.Suppression.Rewriting

/-!
# What a change of a suppression file answers

Adding or removing records answers whether the file changed. The answer is taken from the records,
while the file changes as a text, which may have been spelled otherwise than it is rendered. Both
agree, because the text of more or fewer records is never the text that was there, and a text whose
records stay is written as it was. Only where there was no file they do not: any change makes one,
and removing from it answers no.

* `render_ne_of_withRecord`, `render_ne_of_withoutRecords`: other records have another text.
* `honest_put_iff`: when an answer about one file that was put is right.
* `tellsTruth_append_and_remove_iff`: when additions and removals answer right.
-/

namespace Findings

/-- There is no file where a path leads to, but an empty one may be made. -/
def FileSystem.Vacant (fs : FileSystem) (path : String) : Prop :=
  ∃ place, fs.resolve path = .ok ⟨place, false⟩ ∧ fs.node? place = none ∧
    fs.refusal? place = none ∧ fs.device.fault place .empty .empty = none

namespace SuppressionFile

open Suppression

variable {fs after : FileSystem} {path : String} {place : Place}
  {records : List Suppression}

/-- An answer to whether the file at a path changed is right: it is yes if and only if the file
system is another one after the change, and then what differs is the file at the path, which came
into being or holds other bytes. -/
structure Honest (fs : FileSystem) (path : String) (changed : Bool) (after : FileSystem) :
    Prop where
  changed_iff : changed = true ↔ after ≠ fs
  at_path : ∃ place, fs.resolve path = .ok ⟨place, false⟩ ∧
    (after ≠ fs ↔ after.node? place ≠ fs.node? place) ∧
    ∀ other, other ≠ place → after.node? other = fs.node? other

/-- A change of a file answers right, if it answers. -/
def TellsTruth (fs : FileSystem) (path : String)
    (outcome : Except SuppressionError Bool × FileSystem) : Prop :=
  ∀ changed, outcome.1 = .ok changed → Honest fs path changed outcome.2

/-! ## The text of other records -/

/-- Where no record is read, every line is blank. -/
theorem trim_eq_nil_of_ofLines {number : Nat} {texts : List (List Char)}
    (h : ofLines number texts = .ok []) : ∀ line ∈ texts, Text.trim line = [] := by
  induction texts generalizing number with
  | nil => simp
  | cons line texts ih =>
    rw [ofLines] at h
    split at h
    · rename_i hb
      exact List.forall_mem_cons.2 ⟨by simpa using hb, ih h⟩
    · split at h
      · cases h
      · obtain ⟨rest, -, hr⟩ := map_eq_ok_iff.1 h
        cases hr

theorem isBlank_of_parseChars {content : List Char} (h : parseChars content = .ok []) :
    ∀ c ∈ content, Text.isBlank c = true := by
  intro c hc
  by_cases hn : c = '\n'
  · rw [hn]
    decide
  · by_cases hr : c = '\r'
    · rw [hr]
      decide
    · obtain ⟨line, hl, hm⟩ := Text.exists_mem_lines hn hr hc
      exact Text.trim_eq_nil_iff.1 (trim_eq_nil_of_ofLines h line hl) c hm

/-- With one record more, whatever it holds, a text is read as more records. -/
theorem render_ne_of_withRecord {text : String} {record : Suppression}
    {changed : List Suppression} (hp : parse text path = .ok records)
    (hc : withRecord record records = some changed) : render changed ≠ text := by
  rintro rfl
  have hline : ∀ s ∈ records, s.OneLine := oneLine_of_parseChars (parse_eq_ok_iff.1 hp)
  rw [eq_of_withRecord hc] at hp
  have hadded : parse (render [record]) path = .ok [] :=
    ((parse_render_append_iff hline).1 (hp.trans (by rw [List.append_nil]))).2
  rw [parse_eq_ok_iff, render, String.toList_ofList] at hadded
  -- The line of a record holds a separator, which is not blank.
  have hbar := isBlank_of_parseChars hadded '|' (by simp [lineChars, separator])
  exact absurd hbar (by decide)

/-- With some of its records only, a text is read as less records. -/
theorem render_ne_of_withoutRecords {text hash fileName : String} {changed : List Suppression}
    (hp : parse text path = .ok records)
    (hc : withoutRecords hash fileName records = some changed) : render changed ≠ text := by
  obtain ⟨rfl, hlt⟩ := eq_of_withoutRecords hc
  rintro rfl
  rw [parse_eq_ok_iff, render, String.toList_ofList] at hp
  have hline := oneLine_of_parseChars hp
  rw [parseChars_renderChars_iff fun s hs => hline s (List.mem_filter.1 hs).1] at hp
  have hlen := congrArg List.length hp
  rw [List.length_map, List.length_map] at hlen
  omega

/-! ## Answers -/

/-- If all a change does is to put something at the place that the path leads to, the right answer
is whether it was there. -/
theorem honest_put_iff (ht : fs.resolve path = .ok ⟨place, false⟩) (hne : place ≠ [])
    (changed : Bool) (node : Node) :
    Honest fs path changed (fs.put place node) ↔
      (changed = true ↔ fs.node? place ≠ some node) := by
  have hself : (fs.put place node).node? place = some node := FileSystem.node?_put_self fs node hne
  have hput : fs.put place node ≠ fs ↔ fs.node? place ≠ some node := by
    refine not_congr ⟨fun h => ?_, FileSystem.put_of_node? hne⟩
    rw [← h]
    exact hself
  constructor
  · intro h
    rw [h.changed_iff, hput]
  · intro h
    refine ⟨h.trans hput.symm, place, ht, ?_, fun _ ho => FileSystem.node?_put_of_ne fs node ho⟩
    rw [hput, hself]
    exact ne_comm

/-- Where there was a file, an update answers right if changed records have another text. -/
theorem honest_of_update (change : List Suppression → Option (List Suppression)) {changed : Bool}
    (hc : ∀ text records found, parse text path = .ok records → change records = some found →
      render found ≠ text)
    (hv : ∀ place, fs.resolve path = .ok ⟨place, false⟩ → fs.node? place = none →
      (change []).isSome = true)
    (h : update fs path change = (.ok changed, after)) : Honest fs path changed after := by
  obtain ⟨place, text, records, ht, hne, hn, hp, rfl, rfl⟩ := update_eq_ok h
  rw [honest_put_iff ht hne]
  obtain hn | ⟨hn, rfl⟩ := hn
  · rw [hn]
    cases hfound : change records with
    | none => simp
    | some found =>
      have htext : text.toByteArray ≠ (render found).toByteArray := fun he =>
        hc text records found hp hfound (String.toByteArray_inj.1 he).symm
      simpa using htext
  · obtain rfl : records = [] := by
      cases hp
      rfl
    simp [hn, hv place ht hn]

theorem revise_withoutRecords_nil (path hash fileName : String) :
    revise path (withoutRecords hash fileName) "" = ("", .ok false) := by rfl

/-- Removing from a file that is not there makes an empty one. -/
theorem remove_of_vacant (ht : fs.resolve path = .ok ⟨place, false⟩) (hn : fs.node? place = none)
    (hr : fs.refusal? place = none) (hf : fs.device.fault place .empty .empty = none)
    (hash fileName : String) :
    remove fs path hash fileName = (.ok false, fs.put place (.file .empty)) := by
  have hends := FileSystem.rewrite_of_vacant ht hn (revise path (withoutRecords hash fileName))
  rw [remove, update]
  cases hends with
  | refused hr' _ => cases hr.symm.trans hr'
  | torn _ hf' _ =>
    rw [revise_withoutRecords_nil] at hf'
    cases hf.symm.trans hf'
  | written _ _ hw =>
    rw [hw, revise_withoutRecords_nil]
    rfl

/-- Where removing from a file that is not there answers, an empty one may be made. -/
theorem vacant_of_remove {hash fileName : String} {changed : Bool}
    (ht : fs.resolve path = .ok ⟨place, false⟩) (hn : fs.node? place = none)
    (h : (remove fs path hash fileName).1 = .ok changed) : fs.Vacant path := by
  have hends := FileSystem.rewrite_of_vacant ht hn (revise path (withoutRecords hash fileName))
  rw [remove, update] at h
  cases hends with
  | refused _ hw =>
    rw [hw] at h
    cases h
  | torn _ _ hw =>
    rw [hw] at h
    cases h
  | written hr hf _ =>
    rw [revise_withoutRecords_nil] at hf
    exact ⟨place, ht, hn, hr, hf⟩

/-- Adding a record answers right whether the file changed, and so does removing records, except
where there was no file and one may be made: then an empty one is made, and the answer is no. -/
theorem tellsTruth_append_and_remove_iff (fs : FileSystem) (path : String) (record : Suppression)
    (hash fileName : String) :
    TellsTruth fs path (append fs path record) ∧
      (TellsTruth fs path (remove fs path hash fileName) ↔ ¬ fs.Vacant path) ∧
      (fs.Vacant path → ∃ place, fs.resolve path = .ok ⟨place, false⟩ ∧
        fs.node? place = none ∧
        remove fs path hash fileName = (.ok false, fs.put place (.file .empty))) := by
  refine ⟨fun changed h => ?_, ⟨fun htells => ?_, fun hv changed h => ?_⟩, ?_⟩
  · exact honest_of_update (withRecord record) (fun _ _ _ => render_ne_of_withRecord)
      (fun _ _ _ => rfl) (Prod.ext h rfl)
  · rintro ⟨place, ht, hn, hr, hf⟩
    have hremove := remove_of_vacant ht hn hr hf hash fileName
    have hne : place ≠ [] := by
      rintro rfl
      cases hn
    have hhonest := htells false (congrArg Prod.fst hremove)
    rw [hremove, honest_put_iff ht hne, hn] at hhonest
    simp at hhonest
  · exact honest_of_update (withoutRecords hash fileName)
      (fun _ _ _ => render_ne_of_withoutRecords)
      (fun place ht hn => absurd (vacant_of_remove ht hn h) hv) (Prod.ext h rfl)
  · rintro ⟨place, ht, hn, hr, hf⟩
    exact ⟨place, ht, hn, remove_of_vacant ht hn hr hf hash fileName⟩

/-- In the empty root directory, a removal makes a file and answers no. -/
theorem not_tellsTruth_remove_empty :
    remove (.empty []) "s" "h" "a.c" =
        (.ok false, (FileSystem.empty []).put ["s"] (.file .empty)) ∧
      (FileSystem.empty []).put ["s"] (.file .empty) ≠ .empty [] ∧
      ¬ TellsTruth (.empty []) "s" (remove (.empty []) "s" "h" "a.c") := by
  have ht : (FileSystem.empty []).resolve "s" = .ok ⟨["s"], false⟩ := by rfl
  have hn : (FileSystem.empty []).node? ["s"] = none := by rfl
  have hr := remove_of_vacant ht hn rfl rfl "h" "a.c"
  have hput : (FileSystem.empty []).put ["s"] (.file .empty) ≠ .empty [] := fun he => by
    have hself := FileSystem.node?_put_self (.empty []) (.file .empty) (List.cons_ne_nil "s" [])
    rw [he, hn] at hself
    cases hself
  refine ⟨hr, hput, fun htells => ?_⟩
  have hhonest := htells false (congrArg Prod.fst hr)
  rw [hr] at hhonest
  exact absurd (hhonest.changed_iff.2 hput) Bool.false_ne_true

end SuppressionFile

end Findings
