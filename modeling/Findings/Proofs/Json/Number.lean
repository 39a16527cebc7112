import Findings.Json.Number
import Findings.Proofs.Binary64

/-!
# Reading JSON numbers back

A number at the start of a text is read alike whatever follows it, if that cannot continue the
number (`read_append`). Of the numbers that are written, the whole ones in range are read back
(`readsBack_int`); for a floating point number that depends on the number, because reading rounds
more than once.

* `inRange_of_read`: the numbers that reading gives are in range.
-/

namespace Findings.Number

/-- The text of the number is read as that number. -/
def ReadsBack (n : Number) : Prop :=
  Number.read n.text = .ok (n, [])

/-- A whole number that fits a signed or an unsigned 64-bit word, or another number that has room
for its mantissa and its exponent. -/
def InRange : Number → Prop
  | int n => -2 ^ 63 ≤ n ∧ n < 2 ^ 64
  | float x => x.magnitude.Finite

instance : DecidablePred InRange
  | int n => inferInstanceAs (Decidable (-2 ^ 63 ≤ n ∧ n < 2 ^ 64))
  | float x => inferInstanceAs (Decidable x.magnitude.Finite)

/-- A text that cannot continue a number before it. -/
def Stops (rest : List Char) : Prop :=
  ∀ c ∈ rest.head?, digit? c = none ∧ c ≠ '.' ∧ c ≠ 'e' ∧ c ≠ 'E'

theorem stops_nil : Stops [] := by
  simp [Stops]

theorem stops_cons {c : Char} (h : digit? c = none ∧ c ≠ '.' ∧ c ≠ 'e' ∧ c ≠ 'E')
    (rest : List Char) : Stops (c :: rest) := by
  simpa [Stops] using h

/-! ## What follows a number -/

theorem takeDigits_append (cs : List Char) {rest : List Char} (h : Stops rest) :
    takeDigits (cs ++ rest) = ((takeDigits cs).1, (takeDigits cs).2 ++ rest) := by
  induction cs with
  | nil =>
    cases rest with
    | nil => rfl
    | cons c rest => simp [takeDigits, (h c rfl).1]
  | cons c cs ih =>
    cases hd : digit? c with
    | none => simp [takeDigits, hd]
    | some d => simp [takeDigits, hd, ih]

/-- A result with more text after it. -/
theorem map_append {x : Except ReadError Number} {r s rest : List Char} {n : Number}
    (h : (x.map fun m => (m, r)) = .ok (n, s)) :
    (x.map fun m => (m, r ++ rest)) = .ok (n, s ++ rest) := by
  cases x with
  | error e => simp [Except.map] at h
  | ok m =>
    simp only [Except.map, Except.ok.injEq, Prod.mk.injEq] at h ⊢
    exact ⟨h.1, by rw [h.2]⟩

/-- A mark that goes on with a number comes from the text before the stop. -/
theorem append_ne_of_stops {r rest : List Char} {c : Char} (hs : Stops rest)
    (hc : c = '.' ∨ c = 'e' ∨ c = 'E') (hr : ∀ tail, r = c :: tail → False) (tail : List Char) :
    r ++ rest ≠ c :: tail := by
  intro he
  cases r with
  | nil =>
    have := hs c (by rw [List.nil_append] at he; simp [he])
    rcases hc with rfl | rfl | rfl <;> simp_all
  | cons d r =>
    simp only [List.cons_append, List.cons.injEq] at he
    exact hr r (by rw [he.1])

section Append

variable {negative : Bool} {significand : Nat} {cs r rest : List Char} {n : Number}

theorem readExponentDigits_append {start : Int} {down : Bool}
    (h : readExponentDigits negative significand start down cs = .ok (n, r)) (hs : Stops rest) :
    readExponentDigits negative significand start down (cs ++ rest) = .ok (n, r ++ rest) := by
  unfold readExponentDigits at h ⊢
  rw [takeDigits_append cs hs]
  simp only at h ⊢
  split at h
  · cases h
  · rename_i hd
    rw [if_neg hd]
    split at h
    · rename_i hm
      rw [if_pos hm]
      split at h
      · cases h
      · rename_i hz
        rw [if_neg hz]
        simp only [Except.ok.injEq, Prod.mk.injEq] at h ⊢
        exact ⟨h.1, by rw [h.2]⟩
    · rename_i hm
      rw [if_neg hm]
      exact map_append h

theorem readExponent_append {start : Int}
    (h : readExponent negative significand start cs = .ok (n, r)) (hs : Stops rest) :
    readExponent negative significand start (cs ++ rest) = .ok (n, r ++ rest) := by
  unfold readExponent at h
  split at h
  · simpa [readExponent] using readExponentDigits_append h hs
  · simpa [readExponent] using readExponentDigits_append h hs
  · rename_i hp hm
    have hcs : cs ≠ [] := by
      rintro rfl
      simp [readExponentDigits, takeDigits] at h
    obtain ⟨c, cs, rfl⟩ := List.exists_cons_of_ne_nil hcs
    have hd := readExponentDigits_append h hs
    unfold readExponent
    split
    · rename_i he
      simp only [List.cons_append, List.cons.injEq] at he
      exact absurd (by rw [he.1]) (hp cs)
    · rename_i he
      simp only [List.cons_append, List.cons.injEq] at he
      exact absurd (by rw [he.1]) (hm cs)
    · exact hd

theorem readFraction_append {left : Nat}
    (h : readFraction negative significand left cs = .ok (n, r)) (hs : Stops rest) :
    readFraction negative significand left (cs ++ rest) = .ok (n, r ++ rest) := by
  unfold readFraction at h ⊢
  rw [takeDigits_append cs hs]
  generalize takeDigits cs = taken at h ⊢
  obtain ⟨fraction, after⟩ := taken
  simp only at h ⊢
  split at h
  · cases h
  · rename_i hd
    rw [if_neg hd]
    split at h
    · exact readExponent_append h hs
    · exact readExponent_append h hs
    · rename_i he hE
      split
      · rename_i tail ht
        exact absurd ht (append_ne_of_stops hs (by simp) he tail)
      · rename_i tail ht
        exact absurd ht (append_ne_of_stops hs (by simp) hE tail)
      · exact map_append h

theorem readAfterDigits_append {digits : List Nat}
    (h : readAfterDigits negative digits cs = .ok (n, r)) (hs : Stops rest) :
    readAfterDigits negative digits (cs ++ rest) = .ok (n, r ++ rest) := by
  unfold readAfterDigits at h ⊢
  generalize absorb 0 digits = absorbed at h ⊢
  obtain ⟨significand, taken, left⟩ := absorbed
  simp only at h ⊢
  split at h
  · exact readFraction_append h hs
  · exact readExponent_append h hs
  · exact readExponent_append h hs
  · rename_i hp he hE
    split
    · rename_i tail ht
      exact absurd ht (append_ne_of_stops hs (by simp) hp tail)
    · rename_i tail ht
      exact absurd ht (append_ne_of_stops hs (by simp) he tail)
    · rename_i tail ht
      exact absurd ht (append_ne_of_stops hs (by simp) hE tail)
    · exact map_append h

theorem readUnsigned_append (h : readUnsigned negative cs = .ok (n, r)) (hs : Stops rest) :
    readUnsigned negative (cs ++ rest) = .ok (n, r ++ rest) := by
  unfold readUnsigned at h ⊢
  rw [takeDigits_append cs hs]
  generalize takeDigits cs = taken at h ⊢
  obtain ⟨digits, after⟩ := taken
  match digits, h with
  | [], h => cases h
  | 0 :: _ :: _, h => cases h
  | [0], h => exact readAfterDigits_append h hs
  | (d + 1) :: ds, h => exact readAfterDigits_append h hs

/-- A number at the start of a text is read alike whatever follows that does not continue it. -/
theorem read_append (h : Number.read cs = .ok (n, r)) (hs : Stops rest) :
    Number.read (cs ++ rest) = .ok (n, r ++ rest) := by
  unfold Number.read at h
  split at h
  · exact readUnsigned_append h hs
  · rename_i hm
    have hcs : cs ≠ [] := by
      rintro rfl
      simp [readUnsigned, takeDigits] at h
    obtain ⟨c, cs, rfl⟩ := List.exists_cons_of_ne_nil hcs
    unfold Number.read
    split
    · rename_i he
      simp only [List.cons_append, List.cons.injEq] at he
      exact absurd (by rw [he.1]) (hm cs)
    · exact readUnsigned_append h hs

end Append

/-! ## Whole numbers -/

theorem digit?_digitChar {d : Nat} (h : d < 10) : digit? (Nat.digitChar d) = some d := by
  have hall : ∀ i : Fin 10, digit? (Nat.digitChar i.val) = some i.val := by decide
  exact hall ⟨d, h⟩

theorem takeDigits_append_of_all {cs : List Char} {ds : List Nat} (h : takeDigits cs = (ds, []))
    (more : List Char) :
    takeDigits (cs ++ more) = (ds ++ (takeDigits more).1, (takeDigits more).2) := by
  induction cs generalizing ds with
  | nil =>
    simp only [takeDigits, Prod.mk.injEq] at h
    simp [← h.1]
  | cons c cs ih =>
    cases hd : digit? c with
    | none => simp [takeDigits, hd] at h
    | some d =>
      simp only [takeDigits, hd, Prod.mk.injEq] at h
      obtain ⟨rfl, hr⟩ := h
      simp [takeDigits, hd, ih (Prod.ext rfl hr)]

theorem absorb_cons {start d : Nat} (h : start * 10 + d < 2 ^ 64) (digits : List Nat) :
    absorb start (d :: digits) =
      ((absorb (start * 10 + d) digits).1, (absorb (start * 10 + d) digits).2.1 + 1,
        (absorb (start * 10 + d) digits).2.2) := by
  simp only [absorb, if_pos h]

theorem absorb_append {digits : List Nat} {start value taken d : Nat}
    (h : absorb start digits = (value, taken, 0)) (hd : value * 10 + d < 2 ^ 64) :
    absorb start (digits ++ [d]) = (value * 10 + d, taken + 1, 0) := by
  induction digits generalizing start taken with
  | nil =>
    simp only [absorb, Prod.mk.injEq] at h
    obtain ⟨rfl, rfl, -⟩ := h
    rw [List.nil_append, absorb_cons hd]
    rfl
  | cons e digits ih =>
    simp only [absorb] at h
    split at h
    · rename_i he
      simp only [Prod.mk.injEq] at h
      obtain ⟨hv, rfl, hl⟩ := h
      have hi := ih (Prod.ext hv (Prod.ext rfl hl))
      rw [List.cons_append, absorb_cons he, hi]
    · simp at h

/-- The digits of a number that fits a word are all taken, give the number back, and do not start
with a zero that others follow. -/
theorem takeDigits_toDigits (n : Nat) (hn : n < 2 ^ 64) :
    ∃ d ds taken, takeDigits (Nat.toDigits 10 n) = (d :: ds, []) ∧
      absorb 0 (d :: ds) = (n, taken, 0) ∧ (d = 0 → ds = [] ∧ n = 0) := by
  induction n using Nat.strongRecOn with
  | ind n ih =>
    by_cases h : n < 10
    · refine ⟨n, [], 1, ?_, ?_, fun h0 => ⟨rfl, h0⟩⟩
      · simp [Nat.toDigits_of_lt_base h, takeDigits, digit?_digitChar h]
      · rw [absorb_cons (by omega), Nat.zero_mul, Nat.zero_add]
        rfl
    · obtain ⟨d, ds, taken, ht, ha, h0⟩ := ih (n / 10) (by omega) (by omega)
      refine ⟨d, ds ++ [n % 10], taken + 1, ?_, ?_, fun hd => ?_⟩
      · rw [Nat.toDigits_of_base_le (by decide) (by omega), takeDigits_append_of_all ht]
        simp [takeDigits, digit?_digitChar (Nat.mod_lt n (by decide))]
      · have hs := absorb_append (d := n % 10) ha (by omega)
        rwa [Nat.div_add_mod' n 10] at hs
      · have := (h0 hd).2
        omega

theorem readUnsigned_toDigits (negative : Bool) {n : Nat} (hn : n < 2 ^ 64) :
    readUnsigned negative (Nat.toDigits 10 n) =
      (ofInteger negative n).map fun number => (number, []) := by
  obtain ⟨d, ds, taken, ht, ha, h0⟩ := takeDigits_toDigits n hn
  have htail : readAfterDigits negative (d :: ds) [] =
      (ofInteger negative n).map fun number => (number, []) := by
    simp [readAfterDigits, ha]
  unfold readUnsigned
  rw [ht]
  cases d with
  | zero =>
    obtain ⟨rfl, -⟩ := h0 rfl
    exact htail
  | succ d => exact htail

theorem read_toDigits {n : Nat} (hn : n < 2 ^ 64) :
    Number.read (Nat.toDigits 10 n) = .ok (.int n, []) := by
  unfold Number.read
  split
  · rename_i rest he
    obtain ⟨d, ds, taken, ht, -⟩ := takeDigits_toDigits n hn
    have hm : digit? '-' = none := by decide
    simp [he, takeDigits, hm] at ht
  · rw [readUnsigned_toDigits false hn]
    rfl

/-- A whole number in range is read back. -/
theorem readsBack_int {n : Int} (h : (int n).InRange) : (int n).ReadsBack := by
  obtain ⟨hl, hu⟩ := h
  by_cases hn : n < 0
  · have hr := readUnsigned_toDigits true (n := n.natAbs) (by omega)
    have hi : ofInteger true n.natAbs = .ok (.int n) := by
      have h0 : n.natAbs ≠ 0 := by omega
      have h63 : n.natAbs ≤ 2 ^ 63 := by omega
      have ha : -(n.natAbs : Int) = n := by omega
      have hc : (decide (n.natAbs ≠ 0) && decide (n.natAbs ≤ 2 ^ 63)) = true := by
        rw [decide_eq_true h0, decide_eq_true h63]
        rfl
      rw [ofInteger, Bool.not_true, if_neg Bool.false_ne_true, if_pos hc, ha]
    simp only [ReadsBack, text, hn, if_true, List.cons_append, List.nil_append, Number.read, hr, hi]
    rfl
  · have hr := read_toDigits (n := n.natAbs) (by omega)
    have ha : (n.natAbs : Int) = n := by omega
    simpa [ReadsBack, text, hn, ha] using hr

/-! ## What reading gives -/

theorem absorb_lt {start : Nat} (h : start < 2 ^ 64) (digits : List Nat) :
    (absorb start digits).1 < 2 ^ 64 := by
  induction digits generalizing start with
  | nil => exact h
  | cons d digits ih =>
    simp only [absorb]
    split
    · rename_i hd
      exact ih hd
    · exact h

theorem finite_zero : Magnitude.zero.Finite :=
  ⟨by decide, by decide⟩

theorem finite_of_scale? {steps : Nat} {x y : Magnitude} {exponent : Int}
    (h : scale? steps x exponent = some y) : y.Finite := by
  induction steps generalizing x exponent with
  | zero =>
    unfold scale? at h
    split at h
    · obtain ⟨power, -, h⟩ := Option.bind_eq_some_iff.1 h
      split at h <;> exact Magnitude.finite_of_ofRatio? h
    · split at h
      · exact Option.some.inj h ▸ finite_zero
      · split at h
        · cases h
        · exact Option.some.inj h ▸ finite_zero
  | succ steps ih =>
    unfold scale? at h
    split at h
    · obtain ⟨power, -, h⟩ := Option.bind_eq_some_iff.1 h
      split at h <;> exact Magnitude.finite_of_ofRatio? h
    · split at h
      · exact Option.some.inj h ▸ finite_zero
      · split at h
        · cases h
        · obtain ⟨power, -, h⟩ := Option.bind_eq_some_iff.1 h
          obtain ⟨scaled, -, h⟩ := Option.bind_eq_some_iff.1 h
          exact ih h

theorem inRange_of_ofParts {negative : Bool} {significand : Nat} {exponent : Int} {n : Number}
    (h : ofParts negative significand exponent = .ok n) : n.InRange := by
  unfold ofParts at h
  cases hx : (Magnitude.ofNat? significand).bind fun x => scale? 3 x exponent with
  | none =>
    rw [hx] at h
    cases h
  | some y =>
    rw [hx] at h
    cases h
    obtain ⟨x, -, hscale⟩ := Option.bind_eq_some_iff.1 hx
    exact finite_of_scale? hscale

theorem inRange_of_ofInteger {negative : Bool} {m : Nat} {n : Number} (hm : m < 2 ^ 64)
    (h : ofInteger negative m = .ok n) : n.InRange := by
  unfold ofInteger at h
  split at h
  · cases h
    exact ⟨by omega, by omega⟩
  · split at h
    · rename_i hc
      cases h
      simp only [Bool.and_eq_true, decide_eq_true_eq] at hc
      exact ⟨by omega, by omega⟩
    · exact inRange_of_ofParts h

/-- A property of the number, not of the text after it. -/
theorem of_map_eq_ok {x : Except ReadError Number} {P : Number → Prop} {r s : List Char}
    {n : Number} (hx : ∀ m, x = .ok m → P m) (h : (x.map fun m => (m, r)) = .ok (n, s)) : P n := by
  cases x with
  | error e => simp [Except.map] at h
  | ok m =>
    simp only [Except.map, Except.ok.injEq, Prod.mk.injEq] at h
    exact h.1 ▸ hx m rfl

section Range

variable {negative : Bool} {significand : Nat} {cs r : List Char} {n : Number}

theorem inRange_of_readExponentDigits {start : Int} {down : Bool}
    (h : readExponentDigits negative significand start down cs = .ok (n, r)) : n.InRange := by
  unfold readExponentDigits at h
  simp only at h
  split at h
  · cases h
  · split at h
    · split at h
      · cases h
      · cases h
        exact finite_zero
    · exact of_map_eq_ok (fun _ hm => inRange_of_ofParts hm) h

theorem inRange_of_readExponent {start : Int}
    (h : readExponent negative significand start cs = .ok (n, r)) : n.InRange := by
  unfold readExponent at h
  split at h <;> exact inRange_of_readExponentDigits h

theorem inRange_of_readFraction {left : Nat}
    (h : readFraction negative significand left cs = .ok (n, r)) : n.InRange := by
  unfold readFraction at h
  simp only at h
  split at h
  · cases h
  · split at h
    · exact inRange_of_readExponent h
    · exact inRange_of_readExponent h
    · exact of_map_eq_ok (fun _ hm => inRange_of_ofParts hm) h

theorem inRange_of_readAfterDigits {digits : List Nat}
    (h : readAfterDigits negative digits cs = .ok (n, r)) : n.InRange := by
  have ha : (absorb 0 digits).1 < 2 ^ 64 := absorb_lt (by decide) digits
  unfold readAfterDigits at h
  simp only at h
  split at h
  · exact inRange_of_readFraction h
  · exact inRange_of_readExponent h
  · exact inRange_of_readExponent h
  · refine of_map_eq_ok (fun m hm => ?_) h
    split at hm
    · exact inRange_of_ofInteger ha hm
    · exact inRange_of_ofParts hm

theorem inRange_of_readUnsigned (h : readUnsigned negative cs = .ok (n, r)) : n.InRange := by
  unfold readUnsigned at h
  split at h
  · cases h
  · cases h
  · exact inRange_of_readAfterDigits h

/-- A number that was read is in range. -/
theorem inRange_of_read (h : Number.read cs = .ok (n, r)) : n.InRange := by
  unfold Number.read at h
  split at h <;> exact inRange_of_readUnsigned h

end Range

end Findings.Number
