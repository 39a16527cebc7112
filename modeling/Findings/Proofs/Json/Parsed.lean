import Findings.Proofs.Json.Float
import Findings.Proofs.Json.RoundTrip
import Findings.Proofs.Result

/-!
# Bounds on what is read

* `within_of_parse`: a value that was read is not nested deeper than the reader allows, and its
  numbers are in range.
* `within_rereads_collapse`: so it can be printed and read again.
* `within_readsBack_collapse`: it is read back, as far as its floats are.
-/

namespace Findings.Json

/-! ## Values -/

theorem readLiteral_eq_ok {literal : String} {value v : Json} {cs rest : List Char}
    (h : readLiteral literal value cs = .ok (v, rest)) : v = value := by
  unfold readLiteral at h
  split at h <;> simp_all

mutual

theorem within_of_readValue {depth bound : Nat} {cs rest : List Char} {value : Json}
    (h : readValue depth bound cs = .ok (value, rest)) : Within Number.InRange depth value := by
  cases bound with
  | zero => simp [readValue] at h
  | succ bound =>
    rw [readValue] at h
    split at h
    · rw [readLiteral_eq_ok h]
      exact within_leaf rfl rfl
    · rw [readLiteral_eq_ok h]
      exact within_leaf rfl rfl
    · rw [readLiteral_eq_ok h]
      exact within_leaf rfl rfl
    · obtain ⟨s, -, hs⟩ := bind_eq_ok_iff.1 h
      simp only [Except.ok.injEq, Prod.mk.injEq] at hs
      rw [← hs.1]
      exact within_leaf rfl rfl
    · cases depth with
      | zero => simp at h
      | succ depth =>
        simp only at h
        split at h
        · simp only [Except.ok.injEq, Prod.mk.injEq] at h
          rw [← h.1]
          exact within_array_iff.2 (by simp)
        · obtain ⟨⟨items, rest⟩, hi, hs⟩ := bind_eq_ok_iff.1 h
          simp only [Except.ok.injEq, Prod.mk.injEq] at hs
          rw [← hs.1]
          exact within_array_iff.2 (within_of_readItems hi)
    · cases depth with
      | zero => simp at h
      | succ depth =>
        simp only at h
        split at h
        · simp only [Except.ok.injEq, Prod.mk.injEq] at h
          rw [← h.1]
          exact within_object_iff.2 (by simp)
        · obtain ⟨⟨members, rest⟩, hm, hs⟩ := bind_eq_ok_iff.1 h
          simp only [Except.ok.injEq, Prod.mk.injEq] at hs
          rw [← hs.1]
          exact within_object_iff.2 (within_of_readMembers hm)
    · obtain ⟨⟨n, rest⟩, hn, hs⟩ := bind_eq_ok_iff.1 h
      simp only [Except.ok.injEq, Prod.mk.injEq] at hs
      rw [← hs.1]
      exact within_number (Number.inRange_of_read hn)

theorem within_of_readItems {depth bound : Nat} {cs rest : List Char} {items : List Json}
    (h : readItems depth bound cs = .ok (items, rest)) :
    ∀ i ∈ items, Within Number.InRange depth i := by
  cases bound with
  | zero => simp [readItems] at h
  | succ bound =>
    rw [readItems] at h
    obtain ⟨⟨item, r⟩, hv, h⟩ := bind_eq_ok_iff.1 h
    have hi := within_of_readValue hv
    simp only at h
    split at h
    · obtain ⟨⟨more, r⟩, hm, h⟩ := bind_eq_ok_iff.1 h
      simp only [Except.ok.injEq, Prod.mk.injEq] at h
      rw [← h.1]
      exact List.forall_mem_cons.2 ⟨hi, within_of_readItems hm⟩
    · simp only [Except.ok.injEq, Prod.mk.injEq] at h
      rw [← h.1]
      simpa using hi
    · simp at h

theorem within_of_readMembers {depth bound : Nat} {cs rest : List Char}
    {members : List (String × Json)} (h : readMembers depth bound cs = .ok (members, rest)) :
    ∀ m ∈ members, Within Number.InRange depth m.2 := by
  cases bound with
  | zero => simp [readMembers] at h
  | succ bound =>
    rw [readMembers] at h
    split at h
    · obtain ⟨⟨key, r⟩, -, h⟩ := bind_eq_ok_iff.1 h
      simp only at h
      split at h
      · obtain ⟨⟨value, r⟩, hv, h⟩ := bind_eq_ok_iff.1 h
        have hi := within_of_readValue hv
        simp only at h
        split at h
        · obtain ⟨⟨more, r⟩, hm, h⟩ := bind_eq_ok_iff.1 h
          simp only [Except.ok.injEq, Prod.mk.injEq] at h
          rw [← h.1]
          exact List.forall_mem_cons.2 ⟨hi, within_of_readMembers hm⟩
        · simp only [Except.ok.injEq, Prod.mk.injEq] at h
          rw [← h.1]
          simpa using hi
        · simp at h
      · simp at h
    · simp at h

end

/-! ## Whole texts -/

theorem within_of_parse {text : String} {value : Json} (h : parse text = .ok value) :
    Within Number.InRange maxDepth value := by
  obtain ⟨⟨v, rest⟩, hv, h⟩ := bind_eq_ok_iff.1 h
  simp only at h
  split at h
  · simp only [Except.ok.injEq] at h
    exact h ▸ within_of_readValue hv
  · simp at h

/-- Numbers in range are read after they are printed. -/
theorem rereads_of_inRange {n : Number} (h : n.InRange) : Rereads n := by
  cases n with
  | int n => exact rereads_of_readsBack (Number.readsBack_int h)
  | float x =>
    obtain ⟨y, hy⟩ := Number.exists_read_text h
    exact rereads_float hy

/-- A value with numbers in range is read from its text, but for its floating point numbers. -/
theorem parse_pretty_of_inRange {value : Json} (hd : value.depth ≤ maxDepth)
    (hn : ∀ n ∈ value.numbers, n.InRange) : parse value.pretty = .ok value.reread :=
  parse_pretty_reread ⟨hd, fun n hm => rereads_of_inRange (hn n hm)⟩

/-- What was read is read again after it is printed. -/
theorem within_rereads_collapse {text : String} {value : Json} (h : parse text = .ok value) :
    Within Rereads maxDepth value.collapse :=
  (within_of_parse h).collapse.imp fun _ _ hn => rereads_of_inRange hn

/-- The floats of a text are read back after they are printed. Of a key that is repeated only the
last value is printed. -/
def FloatsReadBack (text : String) : Prop :=
  ∀ value, parse text = .ok value → ∀ x, .float x ∈ value.collapse.numbers →
    (Number.float x).ReadsBack

/-- The text of a value without fractions has no floats. -/
theorem floatsReadBack_pretty {value : Json} (hp : parse value.pretty = .ok value) (ns : List Nat)
    (hn : value.numbers = ns.map fun n => .int n) : FloatsReadBack value.pretty := by
  intro other ho x hx
  obtain rfl := Except.ok.inj (hp.symm.trans ho)
  have hm := numbers_collapse hx
  rw [hn] at hm
  simp at hm

/-- What was read is read back after it is printed, if the floats in it are. -/
theorem within_readsBack_collapse {text : String} {value : Json} (h : parse text = .ok value)
    (hf : ∀ x, .float x ∈ value.collapse.numbers → (Number.float x).ReadsBack) :
    Within Number.ReadsBack maxDepth value.collapse := by
  refine (within_of_parse h).collapse.imp fun n hn hin => ?_
  cases n with
  | int i => exact Number.readsBack_int hin
  | float x => exact hf x hn

end Findings.Json
