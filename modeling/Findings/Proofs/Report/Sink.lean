import Findings.Report.Sink

/-!
# Texts written one after the other

Writing two texts is writing them as one, on every sink: where the first does not fit, neither do
both, and as much arrives.

* `write_append_of_fits`, `write_append_of_full`: these two cases.
* `write_of_fits`: what a sink holds after a text that fits.
-/

namespace Findings.Sink

variable {sink : Sink} {text : String}

theorem write_empty (sink : Sink) : sink.write "" = (true, sink) := by
  obtain ⟨written, capacity⟩ := sink
  have hroom : room ⟨written, capacity⟩ 0 = 0 := by
    cases capacity <;> simp [room]
  simp [write, hroom]

theorem extract_append_add (a b : ByteArray) (n : Nat) :
    (a ++ b).extract 0 (a.size + n) = a ++ b.extract 0 n := by
  have ha : a.extract 0 (a.size + n) = a := by
    have hmax := ByteArray.extract_zero_max_size (a := a) (i := a.size + n)
    rwa [Nat.max_eq_left (Nat.le_add_right _ _)] at hmax
  rw [ByteArray.extract_append, ha, Nat.zero_sub, Nat.add_sub_cancel_left]

theorem toUTF8_append (text rest : String) : (text ++ rest).toUTF8 = text.toUTF8 ++ rest.toUTF8 :=
  String.toByteArray_append

/-- What was written before stays, and a text that fits comes after it. -/
theorem write_of_fits (h : (sink.write text).1 = true) :
    (sink.write text).2 = { sink with written := sink.written ++ text.toUTF8 } := by
  have hroom : sink.room text.toUTF8.size = text.toUTF8.size := by
    simpa [write] using h
  rw [write, hroom, ByteArray.extract_zero_size]

/-- A text that fits leaves the rest of the room to what comes after it. -/
theorem write_append_of_fits (h : (sink.write text).1 = true) (rest : String) :
    sink.write (text ++ rest) = (sink.write text).2.write rest := by
  have hroom : sink.room text.toUTF8.size = text.toUTF8.size := by
    simpa [write] using h
  have hsink := write_of_fits h
  have hrest : sink.room (text.toUTF8 ++ rest.toUTF8).size =
      text.toUTF8.size + (sink.write text).2.room rest.toUTF8.size := by
    rw [hsink, ByteArray.size_append]
    unfold room at hroom ⊢
    cases hc : sink.capacity with
    | none => rfl
    | some capacity =>
      simp only [hc] at hroom ⊢
      rw [ByteArray.size_append]
      omega
  have hfits : decide (text.toUTF8.size + (sink.write text).2.room rest.toUTF8.size =
      (text.toUTF8 ++ rest.toUTF8).size) =
        decide ((sink.write text).2.room rest.toUTF8.size = rest.toUTF8.size) := by
    rw [ByteArray.size_append, decide_eq_decide]
    omega
  rw [hsink] at hrest hfits ⊢
  rw [write, toUTF8_append, hrest, extract_append_add, hfits, write, ByteArray.append_assoc]

/-- After a text that does not fit nothing is written. -/
theorem write_append_of_full (h : (sink.write text).1 = false) (rest : String) :
    sink.write (text ++ rest) = (false, (sink.write text).2) := by
  have hroom : sink.room text.toUTF8.size ≠ text.toUTF8.size := by
    simpa [write] using h
  obtain ⟨hrest, hlt⟩ : sink.room (text.toUTF8 ++ rest.toUTF8).size = sink.room text.toUTF8.size ∧
      sink.room text.toUTF8.size < text.toUTF8.size := by
    rw [ByteArray.size_append]
    unfold room at hroom ⊢
    cases hc : sink.capacity with
    | none =>
      simp only [hc] at hroom
      exact absurd rfl hroom
    | some capacity =>
      simp only [hc] at hroom ⊢
      omega
  have hextract : (text.toUTF8 ++ rest.toUTF8).extract 0 (sink.room text.toUTF8.size) =
      text.toUTF8.extract 0 (sink.room text.toUTF8.size) := by
    have hnone : rest.toUTF8.extract (0 - text.toUTF8.size)
        (sink.room text.toUTF8.size - text.toUTF8.size) = .empty := by
      rw [ByteArray.extract_eq_empty_iff, Nat.sub_eq_zero_of_le (Nat.le_of_lt hlt)]
      omega
    rw [ByteArray.extract_append, hnone, ByteArray.append_empty]
  have hfull : decide (sink.room text.toUTF8.size = (text.toUTF8 ++ rest.toUTF8).size) = false := by
    rw [ByteArray.size_append, decide_eq_false_iff_not]
    omega
  rw [write, toUTF8_append, hrest, hextract, hfull, write]

end Findings.Sink
