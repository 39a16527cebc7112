import Findings.Decimal.Shortest
import Findings.Proofs.Binary64

/-!
# Shortest decimals are not too large

The shortest decimal of a magnitude may be above it, but unless the magnitude is the greatest of
all, it stays below the decimals that are rounded to the greatest one.

* `Below`: this bound. `below_of_magnitude?`: a decimal that is rounded to another magnitude keeps
  it.
* `below_shortest`: so does a shortest decimal.
-/

namespace Findings

/-- The greatest magnitude. -/
def Magnitude.greatest : Magnitude :=
  ⟨2 ^ 53 - 1, maxExponent⟩

namespace Decimal

/-- From here on numbers are rounded to the greatest magnitude or are too large. -/
@[irreducible]
def threshold : Nat :=
  2 ^ 1024 - 2 ^ 971 - 2 ^ 970 + 1

/-- Whether a decimal is below the threshold. -/
def Below (d : Decimal) : Prop :=
  d.digits * 10 ^ d.exponent.toNat < threshold * 10 ^ (-d.exponent).toNat

variable {x : Magnitude} {d : Decimal}

theorem ofRatio?_threshold : Magnitude.ofRatio? threshold 1 = some .greatest := by
  decide +kernel

/-- All other magnitudes are below the threshold. -/
theorem units_lt_threshold (h : x.Finite) (hne : x ≠ .greatest) :
    x.units < threshold * Magnitude.unitsOfOne := by
  obtain ⟨mantissa, exponent⟩ := x
  obtain ⟨hm, he⟩ := h
  obtain hlt | heq := Nat.lt_or_eq_of_le he
  · have hpow : 2 ^ exponent ≤ 2 ^ (Magnitude.maxExponent - 1) :=
      Nat.pow_le_pow_right (by decide) (Nat.le_sub_one_of_lt hlt)
    calc mantissa * 2 ^ exponent ≤ (2 ^ 53 - 1) * 2 ^ (Magnitude.maxExponent - 1) :=
        Nat.mul_le_mul (Nat.le_sub_one_of_lt hm) hpow
      _ < threshold * Magnitude.unitsOfOne := by decide +kernel
  · have hmantissa : mantissa ≤ 2 ^ 53 - 2 := by
      have hother : mantissa ≠ 2 ^ 53 - 1 := by
        rintro rfl
        obtain rfl : exponent = Magnitude.maxExponent := heq
        exact hne rfl
      change mantissa < 2 ^ 53 at hm
      omega
    calc mantissa * 2 ^ exponent ≤ (2 ^ 53 - 2) * 2 ^ exponent :=
        Nat.mul_le_mul_right _ hmantissa
      _ = (2 ^ 53 - 2) * 2 ^ Magnitude.maxExponent := by rw [show exponent = _ from heq]
      _ < threshold * Magnitude.unitsOfOne := by decide +kernel

theorem threshold_le_greatest :
    threshold * Magnitude.unitsOfOne ≤ Magnitude.greatest.units := by
  decide +kernel

theorem ratio_snd_pos (d : Decimal) : 0 < d.ratio.2 := by
  unfold ratio
  split
  · exact Nat.one_pos
  · exact Nat.pow_pos (by decide)

theorem below_iff_ratio : d.Below ↔ d.ratio.1 < threshold * d.ratio.2 := by
  unfold Below ratio
  split
  · rename_i h
    rw [show (-d.exponent).toNat = 0 by omega, Nat.pow_zero]
  · rename_i h
    rw [show d.exponent.toNat = 0 by omega, Nat.pow_zero, Nat.mul_one]

/-- What is not below the threshold is rounded to the greatest magnitude, or is too large. -/
theorem below_of_magnitude? (hx : x.Finite) (hne : x ≠ .greatest) (h : d.magnitude? = some x) :
    d.Below := by
  rw [below_iff_ratio]
  refine Nat.lt_of_not_le fun hnot => ?_
  have hgreatest : Magnitude.ofRatio? (threshold * d.ratio.2) d.ratio.2 = some .greatest := by
    have hmul := Magnitude.ofRatio?_mul_left d.ratio_snd_pos threshold 1
    rwa [Nat.mul_one, Nat.mul_comm, ofRatio?_threshold] at hmul
  have hle := Magnitude.units_le_of_ofRatio? hgreatest h hnot d.ratio_snd_pos
  have hlt := units_lt_threshold hx hne
  have hthreshold := threshold_le_greatest
  omega

theorem below_iff_of_exponent_eq_neg {n : Nat} (he : d.exponent = -n) :
    d.Below ↔ d.digits < threshold * 10 ^ n := by
  have hup : d.exponent.toNat = 0 := by omega
  have hdown : (-d.exponent).toNat = n := by omega
  rw [Below, hup, hdown, Nat.pow_zero, Nat.mul_one]

theorem below_exact (hx : x.Finite) (hne : x ≠ .greatest) : (exact x).Below := by
  have hlt := units_lt_threshold hx hne
  have hpos (n : Nat) : 0 < 5 ^ n := Nat.pow_pos (by decide)
  have hpow : Magnitude.unitsOfOne * 5 ^ 1074 = 10 ^ 1074 := by
    have hmul (n : Nat) : 2 ^ n * 5 ^ n = 10 ^ n := (Nat.mul_pow 2 5 n).symm
    unfold Magnitude.unitsOfOne
    exact hmul 1074
  have hdigits : (exact x).digits = x.units * 5 ^ 1074 := rfl
  rw [below_iff_of_exponent_eq_neg (n := 1074) rfl, hdigits]
  calc x.units * 5 ^ 1074 < threshold * Magnitude.unitsOfOne * 5 ^ 1074 :=
      Nat.mul_lt_mul_of_pos_right hlt (hpos 1074)
    _ = threshold * (Magnitude.unitsOfOne * 5 ^ 1074) := Nat.mul_assoc _ _ _
    _ = threshold * 10 ^ 1074 := congrArg (threshold * ·) hpow

/-- A zero at the end of the digits may move into the exponent. -/
theorem Below.div_ten (h : d.Below) (hz : d.digits % 10 = 0) :
    Below ⟨d.digits / 10, d.exponent + 1⟩ := by
  obtain ⟨digits, exponent⟩ := d
  obtain ⟨rest, rfl⟩ : ∃ rest, digits = rest * 10 := ⟨digits / 10, by
    change digits % 10 = 0 at hz
    omega⟩
  unfold Below at h ⊢
  dsimp only at h ⊢
  rw [Nat.mul_div_cancel rest (by decide)]
  by_cases he : 0 ≤ exponent
  · rw [show (exponent + 1).toNat = exponent.toNat + 1 by omega, Nat.pow_succ', ← Nat.mul_assoc,
      show (-(exponent + 1)).toNat = (-exponent).toNat by omega]
    exact h
  · rw [show exponent.toNat = 0 by omega,
      show (-exponent).toNat = (-(exponent + 1)).toNat + 1 by omega, Nat.pow_succ,
      ← Nat.mul_assoc, Nat.pow_zero, Nat.mul_one] at h
    rw [show (exponent + 1).toNat = 0 by omega, Nat.pow_zero, Nat.mul_one]
    exact Nat.lt_of_mul_lt_mul_right h

theorem below_stripZeros (h : d.Below) (bound : Nat) : (stripZeros bound d).Below := by
  induction bound generalizing d with
  | zero => exact h
  | succ bound ih =>
    unfold stripZeros
    split
    · rename_i hz
      simp only [Bool.and_eq_true, decide_eq_true_eq] at hz
      exact ih (h.div_ten hz.2)
    · exact h

/-- The shortest decimal of any other magnitude than the greatest is below the threshold. -/
theorem below_shortest (hx : x.Finite) (hne : x ≠ .greatest) : (shortest x).Below := by
  unfold shortest
  split
  · unfold Below
    decide +kernel
  · refine below_stripZeros ?_ 20
    cases hfound : (List.range 17).findSome? fun n => onGrid? x (order x - (n + 1 : Nat)) with
    | none => exact below_exact hx hne
    | some d =>
      obtain ⟨n, -, hn⟩ := List.exists_of_findSome?_eq_some hfound
      exact below_of_magnitude? hx hne (reads_back_neighbour hn)

end Decimal

end Findings
