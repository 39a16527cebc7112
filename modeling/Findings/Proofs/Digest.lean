import Findings.Digest.Basic

/-!
# Bytes of fields

* `bytes_int_eq_iff`: the bytes of a number tell it modulo `2 ^ 64`.
* `bytes_ofString_append_inj`, `bytes_int_append_inj`: a text or a number can be told from what
  follows it.
* `eq_of_flatMap_eq`: parts that have the same lengths on both sides can be told apart in a
  sequence of bytes.
-/

namespace Findings

/-- Numbers that agree in `k` bytes agree modulo `256 ^ k`. -/
theorem mod_pow_eq_of_byte_eq {m n : Nat} (k : Nat)
    (h : ∀ i < k, m / 256 ^ i % 256 = n / 256 ^ i % 256) : m % 256 ^ k = n % 256 ^ k := by
  induction k with
  | zero => rw [Nat.pow_zero, Nat.mod_one, Nat.mod_one]
  | succ k ih =>
    have hlow := ih fun i hi => h i (Nat.lt_succ_of_lt hi)
    rw [Nat.pow_succ, Nat.mod_mul, Nat.mod_mul, hlow, h k (Nat.lt_succ_self k)]

/-- Parts of the same lengths can be told apart. -/
theorem eq_of_flatMap_eq {α β : Type} {f g : α → List β} {xs : List α}
    (hlen : ∀ x ∈ xs, (f x).length = (g x).length) (h : xs.flatMap f = xs.flatMap g) :
    ∀ x ∈ xs, f x = g x := by
  induction xs with
  | nil => simp
  | cons x xs ih =>
    rw [List.forall_mem_cons] at hlen ⊢
    rw [List.flatMap_cons, List.flatMap_cons] at h
    obtain ⟨hx, hxs⟩ := List.append_inj h hlen.1
    exact ⟨hx, ih hlen.2 hxs⟩

/-- The bytes of an array, in order. -/
theorem toList_byteArray (content : ByteArray) : content.toList = content.data.toList := by
  have hloop (i : Nat) (done : List UInt8) :
      ByteArray.toList.loop content i done = done.reverse ++ content.data.toList.drop i := by
    fun_induction ByteArray.toList.loop content i done with
    | case1 i done hi ih =>
      have hlt : i < content.data.toList.length := hi
      have hget : content.get! i = content.data.toList[i] := getElem!_pos content.data i hi
      rw [ih, hget, List.drop_eq_getElem_cons hlt, List.reverse_cons, List.append_assoc,
        List.singleton_append]
    | case2 i done hi =>
      rw [List.drop_eq_nil_of_le (Nat.le_of_not_lt hi), List.append_nil]
  exact hloop 0 []

namespace Field

@[simp] theorem length_wordBytes (n : Nat) : (wordBytes n).length = 8 := by
  simp [wordBytes]

theorem wordBytes_inj {m n : Nat} (hm : m < 2 ^ 64) (hn : n < 2 ^ 64)
    (h : wordBytes m = wordBytes n) : m = n := by
  have hbytes : ∀ i < 8, m / 256 ^ i % 256 = n / 256 ^ i % 256 := by
    intro i hi
    have hi' := congrArg UInt8.toNat (List.map_inj_left.1 h i (List.mem_range.2 hi))
    rw [Nat.toUInt8_eq, Nat.toUInt8_eq, UInt8.toNat_ofNat', UInt8.toNat_ofNat'] at hi'
    omega
  have hmod := mod_pow_eq_of_byte_eq 8 hbytes
  rwa [Nat.mod_eq_of_lt hm, Nat.mod_eq_of_lt hn] at hmod

/-- The bytes of a number tell it modulo `2 ^ 64`. -/
theorem bytes_int_eq_iff {m n : Int} :
    bytes (.int m) = bytes (.int n) ↔ m % 2 ^ 64 = n % 2 ^ 64 := by
  constructor
  · intro h
    have hm : (m % 2 ^ 64).toNat < 2 ^ 64 := by omega
    have hn : (n % 2 ^ 64).toNat < 2 ^ 64 := by omega
    have heq := wordBytes_inj hm hn h
    omega
  · intro h
    rw [bytes, bytes, h]

/-! ## What follows a field -/

variable {s t : String} {m n : Int} {rest rest' : List UInt8}

theorem length_toList_toUTF8 (s : String) : s.toUTF8.toList.length = s.utf8ByteSize := by
  rw [toList_byteArray, Array.length_toList]
  rfl

theorem bytes_ofString (s : String) :
    (ofString s).bytes = wordBytes s.utf8ByteSize ++ s.toUTF8.toList :=
  rfl

@[simp] theorem length_bytes_ofString (s : String) :
    (ofString s).bytes.length = 8 + s.utf8ByteSize := by
  rw [bytes_ofString, List.length_append, length_wordBytes, length_toList_toUTF8]

@[simp] theorem length_bytes_int (n : Int) : (int n).bytes.length = 8 :=
  length_wordBytes _

theorem toList_toUTF8_inj (h : s.toUTF8.toList = t.toUTF8.toList) : s = t := by
  rw [toList_byteArray, toList_byteArray, Array.toList_inj] at h
  exact String.toByteArray_inj.1 (ByteArray.ext h)

/-- A text is told by its bytes. -/
theorem bytes_ofString_inj : (ofString s).bytes = (ofString t).bytes ↔ s = t := by
  refine ⟨fun h => ?_, fun h => by rw [h]⟩
  rw [bytes_ofString, bytes_ofString] at h
  exact toList_toUTF8_inj (List.append_inj h (by simp)).2

/-- A text can be told from what follows it, since its length comes first. -/
theorem bytes_ofString_append_inj (hlen : ((ofString s).bytes ++ rest).length < 2 ^ 64)
    (h : (ofString s).bytes ++ rest = (ofString t).bytes ++ rest') : s = t ∧ rest = rest' := by
  have hlen' := hlen
  rw [h] at hlen'
  rw [List.length_append, length_bytes_ofString] at hlen hlen'
  rw [bytes_ofString, bytes_ofString, List.append_assoc, List.append_assoc] at h
  obtain ⟨hword, hrest⟩ := List.append_inj h (by simp)
  have hsize := wordBytes_inj (by omega) (by omega) hword
  obtain ⟨htext, hrest⟩ :=
    List.append_inj hrest (by rw [length_toList_toUTF8, length_toList_toUTF8, hsize])
  exact ⟨toList_toUTF8_inj htext, hrest⟩

/-- A number of 64 bits with a sign can be told from what follows it. -/
theorem bytes_int_append_inj (hm : -2 ^ 63 ≤ m ∧ m < 2 ^ 63) (hn : -2 ^ 63 ≤ n ∧ n < 2 ^ 63)
    (h : (int m).bytes ++ rest = (int n).bytes ++ rest') : m = n ∧ rest = rest' := by
  obtain ⟨hint, hrest⟩ := List.append_inj h (by simp)
  have hmod := bytes_int_eq_iff.1 hint
  exact ⟨by omega, hrest⟩

end Field

end Findings
