import Findings.Bundle.Identity
import Findings.Proofs.Source.File

/-!
# Lines by byte offsets

The index of a source file counts characters. Counted in bytes, it cuts the same lines out of the
text, and never within a character: the byte of a line feed occurs in no other character. And the
line that the index gives is, but for blanks around it, the line that an identity digests.

* `getElem?_byteStarts`: at which byte a line starts.
* `exists_slice`: the bytes from there to the next line are a part of the text.
* `findsLine`: which lines a file has, and what they are.
-/

namespace Findings.SourceFile

open Text

/-! ## Bytes of a text -/

/-- Only a line feed has its byte. -/
theorem newline_mem_utf8EncodeChar_iff {c : Char} : 10 ∈ String.utf8EncodeChar c ↔ c = '\n' := by
  have hbyte {n : Nat} (hn : n < 256) : (10 : UInt8) = UInt8.ofNat n ↔ n = 10 := by
    rw [← UInt8.toNat_inj, UInt8.toNat_ofNat_of_lt' hn]
    exact eq_comm
  have hchar : c = '\n' ↔ c.val.toNat = 10 := by
    rw [Char.ext_iff, ← UInt32.toNat_inj]
    rfl
  rw [hchar]
  unfold String.utf8EncodeChar
  dsimp only
  split
  · rw [List.mem_singleton, hbyte (by omega)]
  · -- The bytes of any longer character are above those of ASCII.
    repeat' split
    all_goals
      simp (disch := omega) only [List.mem_cons, List.not_mem_nil, or_false, hbyte]
      omega

theorem toList_toUTF8 (content : String) :
    content.toUTF8.data.toList = content.toList.flatMap String.utf8EncodeChar := by
  have h : content.toList.utf8Encode = content.toUTF8 := String.utf8Encode_toList
  rw [← h, List.utf8Encode, List.data_toByteArray, List.toList_toArray]

theorem length_flatMap_utf8EncodeChar (cs : List Char) :
    (cs.flatMap String.utf8EncodeChar).length = (String.ofList cs).utf8ByteSize := by
  rw [← String.size_toByteArray, String.toByteArray_ofList, List.utf8Encode, List.size_toByteArray]

/-- The bytes at which the lines of a text start. -/
def byteStarts (content : String) : List Nat :=
  0 :: startsAfter 10 0 content.toUTF8.data.toList

/-- From which byte to which a line of a text reaches, with the line feed that ends it. -/
def byteRange? (content : String) : (number : Nat) → Option (Nat × Nat)
  | 0 => none
  | i + 1 => do
    let start ← (byteStarts content)[i]?
    if content.utf8ByteSize ≤ start && i ≠ 0 then none
    else some (start, ((byteStarts content)[i + 1]?).getD content.utf8ByteSize)

/-- The part of a text from one byte to another. Both are within the text, in order, and between two
characters. -/
structure Slices (content : String) (range : Nat × Nat) (slice : String) : Prop where
  start_valid : String.Pos.Raw.IsValid content ⟨range.1⟩
  stop_valid : String.Pos.Raw.IsValid content ⟨range.2⟩
  in_order : range.1 ≤ range.2
  toUTF8_eq : slice.toUTF8 = content.toUTF8.extract range.1 range.2

theorem slices_append (before slice after : String) :
    Slices (before ++ slice ++ after)
      (before.utf8ByteSize, before.utf8ByteSize + slice.utf8ByteSize) slice where
  start_valid := String.Pos.Raw.isValid_iff_exists_append.2
    ⟨before, slice ++ after, String.append_assoc, rfl⟩
  stop_valid := String.Pos.Raw.isValid_iff_exists_append.2
    ⟨before ++ slice, after, rfl, String.Pos.Raw.ext String.utf8ByteSize_append.symm⟩
  in_order := Nat.le_add_right _ _
  toUTF8_eq := by
    change slice.toByteArray = (before ++ slice ++ after).toByteArray.extract _ _
    rw [String.append_assoc, String.toByteArray_append, String.toByteArray_append]
    exact (ByteArray.extract_append_eq_left rfl).symm.trans
      (ByteArray.extract_append_size_add' (i := 0) rfl).symm

/-! ## Ranges of lines -/

/-- A line starts at the byte where the lines above it end. -/
theorem getElem?_byteStarts (content : String) (i : Nat) :
    (byteStarts content)[i]? =
      if i < (segments content.toList).length then
        some (String.ofList (terminated ((segments content.toList).take i))).utf8ByteSize
      else none := by
  have h := getElem?_startsAfter (10 : UInt8) String.utf8EncodeChar rfl
    (fun c hc hm => hc (newline_mem_utf8EncodeChar_iff.1 hm)) 0 content.toList i
  rw [Nat.zero_add, length_flatMap_utf8EncodeChar, ← toList_toUTF8] at h
  exact h

theorem byteRange?_of_le {content : String} {i : Nat}
    (hi : (segments content.toList).length ≤ i) : byteRange? content (i + 1) = none := by
  have hnone := getElem?_byteStarts content i
  rw [if_neg (Nat.not_lt.2 hi)] at hnone
  rw [byteRange?, hnone]
  rfl

/-- A range starts where the line starts and goes as far as the next line, if the line is
counted. -/
theorem byteRange?_succ (file : SourceFile) {i : Nat}
    (hi : i < (segments file.content.toList).length) :
    byteRange? file.content (i + 1) = if i < file.lineCount then
      some ((String.ofList (terminated ((segments file.content.toList).take i))).utf8ByteSize,
        ((byteStarts file.content)[i + 1]?).getD file.content.utf8ByteSize) else none := by
  obtain ⟨rest, he, hr⟩ := exists_eq_terminated_append file.content.toList hi
  have hcount := lt_lineCount_iff file hi he hr
  have hstart := getElem?_byteStarts file.content i
  have hsize := congrArg (fun text => (String.ofList text).utf8ByteSize) he
  simp only [String.ofList_toList] at hsize
  rw [if_pos hi] at hstart
  rw [String.ofList_append, String.utf8ByteSize_append] at hsize
  have hpast : i < file.lineCount ↔ ¬(file.content.utf8ByteSize ≤
      (String.ofList (terminated ((segments file.content.toList).take i))).utf8ByteSize ∧
        i ≠ 0) := by
    rw [hcount, hsize, ← String.ofList_eq_empty_iff, ← String.utf8ByteSize_eq_zero_iff]
    omega
  simp only [byteRange?, hstart, hpast, Option.bind_eq_bind, Option.bind_some, Bool.and_eq_true,
    decide_eq_true_eq, ite_not]

/-- The bytes of a line that is counted are a part of the text: the line, and what ends it. -/
theorem exists_slice (file : SourceFile) {i : Nat}
    (hi : i < (segments file.content.toList).length) :
    ∃ range slice ends,
      byteRange? file.content (i + 1) = (if i < file.lineCount then some range else none) ∧
      Slices file.content range slice ∧
      slice.toList = (segments file.content.toList)[i] ++ ends ∧
      ∀ c ∈ ends, isLineEnd c = true := by
  obtain ⟨rest, he, hr⟩ := exists_eq_terminated_append file.content.toList hi
  have hnext := getElem?_byteStarts file.content (i + 1)
  have hcontent := congrArg String.ofList he
  rw [String.ofList_toList, String.ofList_append] at hcontent
  obtain ⟨hlast, rfl⟩ | ⟨hlt, more, rfl⟩ := hr
  · rw [if_neg (by omega)] at hnext
    rw [List.append_nil] at hcontent
    refine ⟨_, .ofList (segments file.content.toList)[i], [], byteRange?_succ file hi, ?_, by simp,
      List.forall_mem_nil _⟩
    have hslices := slices_append
      (String.ofList (terminated ((segments file.content.toList).take i)))
      (.ofList (segments file.content.toList)[i]) ""
    rw [hnext, Option.getD_none]
    rwa [String.append_empty, ← String.utf8ByteSize_append, ← hcontent] at hslices
  · rw [if_pos hlt, terminated_take_succ hi, String.ofList_append, String.utf8ByteSize_append]
      at hnext
    have hrest : String.ofList ((segments file.content.toList)[i] ++ '\n' :: more) =
        .ofList ((segments file.content.toList)[i] ++ ['\n']) ++ .ofList more := by
      rw [← String.ofList_append, ← List.append_cons]
    rw [hrest, ← String.append_assoc] at hcontent
    refine ⟨_, .ofList ((segments file.content.toList)[i] ++ ['\n']), ['\n'],
      byteRange?_succ file hi, ?_, String.toList_ofList, List.forall_mem_singleton.2 rfl⟩
    have hslices := slices_append
      (String.ofList (terminated ((segments file.content.toList).take i)))
      (.ofList ((segments file.content.toList)[i] ++ ['\n'])) (.ofList more)
    rw [hnext, Option.getD_some]
    rwa [← hcontent] at hslices

/-! ## Which lines a file has -/

/-- What looking up a line of a file gives. -/
structure FindsLine (file : SourceFile) (number : Nat) : Prop where
  /-- There is a line for each number that is counted, from 1 on. -/
  isSome_iff : (file.line? number).isSome ↔ 1 ≤ number ∧ number ≤ file.lineCount
  /-- It is the text between two line feeds, without the carriage returns at its end. -/
  segment : ∀ line ∈ file.line? number,
    ∃ segment ∈ (segments file.content.toList)[number - 1]?,
      line.toList = dropEnd (· = '\r') segment
  /-- The same is cut out of the text by bytes. -/
  slice : ∀ range ∈ byteRange? file.content number,
    ∃ slice, Slices file.content range slice ∧
      file.line? number = some (.ofList (dropEnd isLineEnd slice.toList))
  /-- And where there is nothing to cut out, there is no line. -/
  no_slice : byteRange? file.content number = none → file.line? number = none
  /-- But for the blanks around it, it is the line with this number where the carriage return before
  a line feed belongs to the end of the line. -/
  trims : ∀ i, number = i + 1 → trimmed ((file.line? number).getD "") =
    trimmed (.ofList ((lines file.content.toList)[i]?.getD []))
  /-- That line is what an identity digests. -/
  digests : trimmed ((file.line? number).getD "") = Identity.trimmedLine file.content number

/-- Without the blanks around it, a line is the same however lines end. -/
theorem trimmed_line? (file : SourceFile) (i : Nat) :
    trimmed ((file.line? (i + 1)).getD "") =
      trimmed (.ofList ((lines file.content.toList)[i]?.getD [])) := by
  have htrim : trim ((file.lineChars? (i + 1)).getD []) =
      trim ((segments file.content.toList)[i]?.getD []) := by
    by_cases hi : i < (segments file.content.toList).length
    · rw [lineChars?_getD file hi, trim_dropEnd_isLineEnd, List.getElem?_eq_getElem hi,
        Option.getD_some]
    · rw [lineChars?_succ, List.getElem?_eq_none (Nat.le_of_not_lt hi)]
      split <;> rfl
  rw [line?, trimmed, trimmed, String.toList_ofList, trim_getElem?_lines, ← htrim]
  cases file.lineChars? (i + 1) <;> simp

theorem line?_succ (file : SourceFile) (i : Nat) :
    file.line? (i + 1) =
      if i < file.lineCount then
        ((segments file.content.toList)[i]?).map fun line => .ofList (dropEnd isLineEnd line)
      else none := by
  rw [line?, lineChars?_succ]
  split
  · rw [Option.map_map]
    rfl
  · rfl

section Succ

variable (file : SourceFile) {i : Nat}

theorem isSome_line?_succ : (file.line? (i + 1)).isSome ↔ i < file.lineCount := by
  rw [line?_succ]
  split
  · rename_i hlt
    simp [List.getElem?_eq_getElem (Nat.lt_of_lt_of_le hlt file.lineCount_le), hlt]
  · rename_i hlt
    simp [hlt]

/-- In a line that is found only carriage returns are cut off. -/
theorem exists_segment_of_line? {line : String} (h : file.line? (i + 1) = some line) :
    ∃ segment, (segments file.content.toList)[i]? = some segment ∧
      line.toList = dropEnd (· = '\r') segment := by
  rw [line?_succ, Option.ite_none_right_eq_some, Option.map_eq_some_iff] at h
  obtain ⟨-, segment, hs, rfl⟩ := h
  refine ⟨segment, hs, ?_⟩
  rw [String.toList_ofList,
    dropEnd_isLineEnd (sep_not_mem_of_mem_splitAt (List.mem_of_getElem? hs))]

/-- What the range of a line cuts out is the line, but for what ends it. -/
theorem exists_slice_of_byteRange? {range : Nat × Nat}
    (h : byteRange? file.content (i + 1) = some range) :
    ∃ slice, Slices file.content range slice ∧
      file.line? (i + 1) = some (.ofList (dropEnd isLineEnd slice.toList)) := by
  by_cases hi : i < (segments file.content.toList).length
  · obtain ⟨found, slice, ends, hb, hs, hl, hends⟩ := exists_slice file hi
    rw [hb, Option.ite_none_right_eq_some] at h
    obtain ⟨hlt, h⟩ := h
    obtain rfl := Option.some.inj h
    refine ⟨slice, hs, ?_⟩
    rw [line?_succ, if_pos hlt, List.getElem?_eq_getElem hi, hl, dropEnd_append hends]
    rfl
  · rw [byteRange?_of_le (Nat.le_of_not_lt hi)] at h
    cases h

theorem line?_of_byteRange?_eq_none (h : byteRange? file.content (i + 1) = none) :
    file.line? (i + 1) = none := by
  rw [line?_succ, if_neg]
  intro hlt
  rw [byteRange?_succ file (Nat.lt_of_lt_of_le hlt file.lineCount_le), if_pos hlt] at h
  cases h

end Succ

/-- Every file finds its lines, whatever its text is. -/
theorem findsLine (file : SourceFile) (number : Nat) : file.FindsLine number := by
  cases number with
  | zero =>
    exact {
      isSome_iff := by simp [line?]
      segment := nofun
      slice := nofun
      no_slice := fun _ => rfl
      trims := nofun
      digests := rfl }
  | succ i =>
    exact {
      isSome_iff := file.isSome_line?_succ.trans (by omega)
      segment := fun _ hl => file.exists_segment_of_line? hl
      slice := fun _ hr => file.exists_slice_of_byteRange? hr
      no_slice := file.line?_of_byteRange?_eq_none
      trims := fun j hj => Nat.succ.inj hj ▸ file.trimmed_line? i
      digests := file.trimmed_line? i |>.trans (by simp [Identity.trimmedLine, Text.trimmed]) }

end Findings.SourceFile
