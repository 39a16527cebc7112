import Findings.Binary64

/-!
# Rounding to the nearest magnitude

Rounding keeps the order of quotients, and a quotient below one that is not too large is not too
large either.

* `divideToEven_mono`: the division at the bottom of it.
* `units_le_of_ofRatio?`, `isSome_ofRatio?_of_le`: these two facts, for one denominator.
* `ofRatio?_mul_left`: a quotient may be extended.
* `exists_ofRatio?`: a quotient up to a power of two is rounded to at most that power.
-/

namespace Findings.Magnitude

/-- The numbers that have room for mantissa and exponent. -/
structure Finite (x : Magnitude) : Prop where
  mantissa : x.mantissa < 2 ^ 53
  exponent : x.exponent ≤ maxExponent

instance (x : Magnitude) : Decidable x.Finite :=
  decidable_of_iff (x.mantissa < 2 ^ 53 ∧ x.exponent ≤ maxExponent)
    ⟨fun h => ⟨h.1, h.2⟩, fun h => ⟨h.mantissa, h.exponent⟩⟩

/-- The number of units in 1. -/
@[irreducible]
def unitsOfOne : Nat :=
  2 ^ 1074

theorem unitsOfOne_pos : 0 < unitsOfOne := by
  unfold unitsOfOne
  exact Nat.two_pow_pos 1074

variable {num num' den : Nat}

/-! ## Division -/

theorem divideToEven_mono (h : num ≤ num') (den : Nat) :
    divideToEven num den ≤ divideToEven num' den := by
  have hquotient : num / den ≤ num' / den := Nat.div_le_div_right h
  have hnum := Nat.div_add_mod num den
  have hnum' := Nat.div_add_mod num' den
  simp only [divideToEven, Bool.or_eq_true, Bool.and_eq_true, decide_eq_true_eq]
  obtain hlt | heq := Nat.lt_or_eq_of_le hquotient
  · split <;> split <;> omega
  · -- With the same quotient, the remainder is no smaller.
    rw [heq] at hnum
    rw [heq]
    split <;> split <;> omega

theorem divideToEven_mul_self (quotient : Nat) (h : 0 < den) :
    divideToEven (den * quotient) den = quotient := by
  simp [divideToEven, Nat.mul_div_cancel_left _ h, Nat.ne_of_lt h]

theorem divideToEven_mul_left {factor : Nat} (h : 0 < factor) (num den : Nat) :
    divideToEven (factor * num) (factor * den) = divideToEven num den := by
  have hlt : factor * den < 2 * (factor * (num % den)) ↔ den < 2 * (num % den) := by
    rw [Nat.mul_left_comm]
    exact Nat.mul_lt_mul_left h
  have heq : 2 * (factor * (num % den)) = factor * den ↔ 2 * (num % den) = den := by
    rw [Nat.mul_left_comm]
    exact Nat.mul_right_inj (Nat.ne_of_gt h)
  simp only [divideToEven, Nat.mul_div_mul_left _ _ h, Nat.mul_mod_mul_left, hlt, heq]

/-! ## The grid of magnitudes -/

/-- The exponent that a quotient is rounded with. -/
def gridExponent (num den : Nat) : Nat :=
  (num * 2 ^ 1074 / den).log2 - 52

/-- The mantissa that a quotient is rounded to, up to `2 ^ 53`. -/
def gridMantissa (num den : Nat) : Nat :=
  divideToEven (num * 2 ^ 1074) (den * 2 ^ gridExponent num den)

/-- The magnitude of a mantissa on a grid. A mantissa of `2 ^ 53` moves into the exponent. -/
def onGrid (mantissa exponent : Nat) : Magnitude :=
  if mantissa = 2 ^ 53 then ⟨2 ^ 52, exponent + 1⟩ else ⟨mantissa, exponent⟩

theorem units_onGrid (mantissa exponent : Nat) :
    (onGrid mantissa exponent).units = mantissa * 2 ^ exponent := by
  unfold onGrid units
  split
  · rename_i hm
    simp only [hm, Nat.pow_succ 2 exponent]
    omega
  · rfl

theorem exponent_onGrid (mantissa exponent : Nat) :
    (onGrid mantissa exponent).exponent = exponent + if mantissa = 2 ^ 53 then 1 else 0 := by
  unfold onGrid
  split <;> rfl

theorem mantissa_onGrid_lt {mantissa : Nat} (h : mantissa ≤ 2 ^ 53) (exponent : Nat) :
    (onGrid mantissa exponent).mantissa < 2 ^ 53 := by
  unfold onGrid
  split
  · exact (by decide : 2 ^ 52 < 2 ^ 53)
  · exact Nat.lt_of_le_of_ne h ‹_›

theorem ofRatio?_eq (num den : Nat) :
    ofRatio? num den =
      let x := onGrid (gridMantissa num den) (gridExponent num den)
      if x.exponent ≤ maxExponent then some x else none :=
  rfl

theorem ofRatio?_eq_some_iff {x : Magnitude} : ofRatio? num den = some x ↔
    x = onGrid (gridMantissa num den) (gridExponent num den) ∧ x.exponent ≤ maxExponent := by
  rw [ofRatio?_eq]
  dsimp only
  constructor
  · intro h
    split at h
    · rename_i he
      obtain rfl := Option.some.inj h
      exact ⟨rfl, he⟩
    · cases h
  · rintro ⟨hx, he⟩
    rw [← hx, if_pos he]

theorem isSome_ofRatio?_iff : (ofRatio? num den).isSome ↔
    gridExponent num den + (if gridMantissa num den = 2 ^ 53 then 1 else 0) ≤ maxExponent := by
  rw [ofRatio?_eq, ← exponent_onGrid]
  dsimp only
  split <;> simp [*]

theorem log2_mono {n m : Nat} (h : n ≤ m) : n.log2 ≤ m.log2 := by
  by_cases hn : n = 0
  · simp [hn]
  · exact (Nat.le_log2 (by omega)).2 (Nat.le_trans (Nat.log2_self_le hn) h)

theorem gridExponent_mono (h : num ≤ num') (den : Nat) :
    gridExponent num den ≤ gridExponent num' den :=
  Nat.sub_le_sub_right (log2_mono (Nat.div_le_div_right (Nat.mul_le_mul_right _ h))) 52

theorem gridMantissa_le (num den : Nat) : gridMantissa num den ≤ 2 ^ 53 := by
  obtain rfl | h := Nat.eq_zero_or_pos den
  · have hone : divideToEven (num * 2 ^ 1074) (0 * 2 ^ gridExponent num 0) ≤ 0 + 1 := by
      rw [divideToEven, Nat.zero_mul, Nat.div_zero]
      split <;> omega
    exact Nat.le_trans hone (by decide)
  have hpos : 0 < den * 2 ^ gridExponent num den := Nat.mul_pos h (Nat.two_pow_pos _)
  have hlt : num * 2 ^ 1074 / den < 2 ^ (gridExponent num den + 53) :=
    Nat.lt_of_lt_of_le Nat.lt_log2_self (Nat.pow_le_pow_right (by decide) (by
      unfold gridExponent
      omega))
  rw [Nat.div_lt_iff_lt_mul h, Nat.pow_add, Nat.mul_right_comm, Nat.mul_comm _ den] at hlt
  calc gridMantissa num den
      ≤ divideToEven (den * 2 ^ gridExponent num den * 2 ^ 53) (den * 2 ^ gridExponent num den) :=
        divideToEven_mono (Nat.le_of_lt hlt) _
    _ = 2 ^ 53 := divideToEven_mul_self _ hpos

/-- Only with the least exponent may a mantissa be small. -/
theorem le_gridMantissa (h : 0 < den) (he : 0 < gridExponent num den) :
    2 ^ 52 ≤ gridMantissa num den := by
  have hpos : 0 < den * 2 ^ gridExponent num den := Nat.mul_pos h (Nat.two_pow_pos _)
  have hexp : gridExponent num den + 52 = (num * 2 ^ 1074 / den).log2 := by
    unfold gridExponent at he ⊢
    omega
  have hne : num * 2 ^ 1074 / den ≠ 0 := by
    intro hzero
    rw [hzero] at hexp
    simp at hexp
  have hle : 2 ^ (gridExponent num den + 52) ≤ num * 2 ^ 1074 / den :=
    hexp ▸ Nat.log2_self_le hne
  rw [Nat.le_div_iff_mul_le h, Nat.pow_add, Nat.mul_right_comm, Nat.mul_comm _ den] at hle
  calc 2 ^ 52
      = divideToEven (den * 2 ^ gridExponent num den * 2 ^ 52) (den * 2 ^ gridExponent num den) :=
        (divideToEven_mul_self _ hpos).symm
    _ ≤ gridMantissa num den := divideToEven_mono hle _

/-- What is rounded to has room for mantissa and exponent. -/
theorem finite_of_ofRatio? {x : Magnitude} (h : ofRatio? num den = some x) : x.Finite := by
  obtain ⟨hx, he⟩ := ofRatio?_eq_some_iff.1 h
  exact ⟨hx ▸ mantissa_onGrid_lt (gridMantissa_le num den) _, he⟩

/-! ## Order -/

/-- On the same grid the mantissas are in order; a coarser grid begins where a finer one ends. -/
theorem gridMantissa_mul_le (h : num ≤ num') (hd : 0 < den) :
    gridMantissa num den * 2 ^ gridExponent num den ≤
      gridMantissa num' den * 2 ^ gridExponent num' den := by
  obtain hlt | heq := Nat.lt_or_eq_of_le (gridExponent_mono h den)
  · have hfirst := gridMantissa_le num den
    have hsecond : 2 ^ 52 ≤ gridMantissa num' den := le_gridMantissa hd (by omega)
    calc gridMantissa num den * 2 ^ gridExponent num den
        ≤ 2 ^ 53 * 2 ^ gridExponent num den := Nat.mul_le_mul_right _ hfirst
      _ = 2 ^ 52 * 2 ^ (gridExponent num den + 1) := by rw [Nat.pow_succ 2]; omega
      _ ≤ gridMantissa num' den * 2 ^ gridExponent num' den :=
        Nat.mul_le_mul hsecond (Nat.pow_le_pow_right (by decide) hlt)
  · rw [← heq]
    refine Nat.mul_le_mul_right _ ?_
    unfold gridMantissa
    rw [← heq]
    exact divideToEven_mono (Nat.mul_le_mul_right _ h) _

/-- Rounding keeps the order. -/
theorem units_le_of_ofRatio? {x y : Magnitude} (hx : ofRatio? num den = some x)
    (hy : ofRatio? num' den = some y) (h : num ≤ num') (hd : 0 < den) : x.units ≤ y.units := by
  obtain ⟨hx, -⟩ := ofRatio?_eq_some_iff.1 hx
  obtain ⟨hy, -⟩ := ofRatio?_eq_some_iff.1 hy
  rw [hx, hy, units_onGrid, units_onGrid]
  exact gridMantissa_mul_le h hd

/-- What is below a quotient that is not too large is not too large either. -/
theorem isSome_ofRatio?_of_le (hs : (ofRatio? num' den).isSome) (h : num ≤ num') :
    (ofRatio? num den).isSome := by
  rw [isSome_ofRatio?_iff] at hs ⊢
  obtain hlt | heq := Nat.lt_or_eq_of_le (gridExponent_mono h den)
  · split <;> omega
  · have hle : gridMantissa num den ≤ gridMantissa num' den := by
      unfold gridMantissa
      rw [← heq]
      exact divideToEven_mono (Nat.mul_le_mul_right _ h) _
    have hmax := gridMantissa_le num' den
    rw [← heq] at hs
    split
    · rename_i hm
      rw [if_pos (by omega)] at hs
      exact hs
    · omega

/-- A quotient may be extended. -/
theorem ofRatio?_mul_left {factor : Nat} (h : 0 < factor) (num den : Nat) :
    ofRatio? (factor * num) (factor * den) = ofRatio? num den := by
  simp only [ofRatio?, Nat.mul_assoc, Nat.mul_div_mul_left _ _ h, divideToEven_mul_left h]

theorem exists_ofRatio?_two_pow {k : Nat} (hk : k ≤ 900) :
    ∃ y, ofRatio? (2 ^ k) 1 = some y ∧ y.units = 2 ^ k * unitsOfOne := by
  have hexp : gridExponent (2 ^ k) 1 = k + 1022 := by
    rw [gridExponent, Nat.div_one, ← Nat.pow_add 2 k 1074, Nat.log2_two_pow]
    omega
  have hmantissa : gridMantissa (2 ^ k) 1 = 2 ^ 52 := by
    rw [gridMantissa, hexp, Nat.one_mul, ← Nat.pow_add 2 k 1074,
      show k + 1074 = k + 1022 + 52 by omega, Nat.pow_add 2 (k + 1022)]
    exact divideToEven_mul_self _ (Nat.two_pow_pos _)
  have hne : (2 : Nat) ^ 52 ≠ 2 ^ 53 := by decide
  refine ⟨onGrid (2 ^ 52) (k + 1022), ofRatio?_eq_some_iff.2 ⟨by rw [hexp, hmantissa], ?_⟩, ?_⟩
  · rw [exponent_onGrid, if_neg hne, maxExponent]
    omega
  · have hexponent : 52 + (k + 1022) = k + 1074 := by omega
    calc (onGrid (2 ^ 52) (k + 1022)).units = 2 ^ 52 * 2 ^ (k + 1022) := units_onGrid _ _
      _ = 2 ^ (52 + (k + 1022)) := (Nat.pow_add 2 52 (k + 1022)).symm
      _ = 2 ^ (k + 1074) := congrArg (2 ^ ·) hexponent
      _ = 2 ^ k * 2 ^ 1074 := Nat.pow_add 2 k 1074
      _ = 2 ^ k * unitsOfOne := by unfold unitsOfOne; rfl

/-- A quotient up to a power of two is rounded to at most that power. -/
theorem exists_ofRatio? {k : Nat} (h : num ≤ den * 2 ^ k) (hd : 0 < den) (hk : k ≤ 900) :
    ∃ x, ofRatio? num den = some x ∧ x.units ≤ 2 ^ k * unitsOfOne := by
  obtain ⟨y, hy, hunits⟩ := exists_ofRatio?_two_pow hk
  have hle : ofRatio? (den * 2 ^ k) den = some y := by
    have hmul := ofRatio?_mul_left hd (2 ^ k) 1
    rwa [Nat.mul_one, hy] at hmul
  obtain ⟨x, hx⟩ := Option.isSome_iff_exists.1 (isSome_ofRatio?_of_le (by rw [hle]; rfl) h)
  have hunits_le := units_le_of_ofRatio? hx hle h hd
  rw [hunits] at hunits_le
  exact ⟨x, hx, hunits_le⟩

end Findings.Magnitude
