import Findings.Proofs.Decimal
import Findings.Proofs.Json.Number

/-!
# Reading printed fractions

A floating point number that is printed is read as some floating point number, though not always as
the same one: what is read is scaled by a power of ten, and both are rounded. The greatest numbers
are not scaled beyond the range either, because a printed number is below the threshold from which
on numbers are rounded to the greatest.

* `exists_scale?_of_neg`, `exists_scale?_of_nonneg`: scaling down, and scaling up below the
  threshold.
* `exists_ofParts`: a significand and an exponent whose number is below the threshold.
* `fitsParts_of_below`: those that are read from the digits of a decimal.
* `exists_read_text`: the text of a floating point number.
-/

namespace Findings.Number

open Magnitude (powerOfTen? unitsOfOne)

/-! ## Bounds -/

theorem threshold_lt : Decimal.threshold < 10 ^ 309 := by
  decide +kernel

theorem lt_threshold : 2 ^ 64 * 10 ^ 288 < Decimal.threshold := by
  decide +kernel

/-- Small powers of ten fit with every significand. -/
theorem mul_pow_lt_threshold {significand exponent : Nat} (hs : significand < 2 ^ 64)
    (he : exponent ≤ 288) : significand * 10 ^ exponent < Decimal.threshold :=
  calc significand * 10 ^ exponent
      ≤ 2 ^ 64 * 10 ^ 288 :=
        Nat.mul_le_mul (Nat.le_of_lt hs) (Nat.pow_le_pow_right (by decide) he)
    _ < Decimal.threshold := lt_threshold

/-- The largest significand whose number is below the threshold. -/
def largestBelow (exponent : Nat) : Nat :=
  min (2 ^ 64 - 1) ((Decimal.threshold - 1) / 10 ^ exponent)

theorem le_largestBelow {significand exponent : Nat} (hs : significand < 2 ^ 64)
    (h : significand * 10 ^ exponent < Decimal.threshold) :
    significand ≤ largestBelow exponent := by
  have hpos : 0 < 10 ^ exponent := Nat.pow_pos (by decide)
  exact Nat.le_min.2
    ⟨Nat.le_sub_one_of_lt hs, (Nat.le_div_iff_mul_le hpos).2 (Nat.le_sub_one_of_lt h)⟩

/-- With the smallest of these powers of ten every significand is below the threshold. -/
theorem isSome_multiply?_largestBelow : ∀ more ≤ 20,
    ((Magnitude.ofNat? (largestBelow (288 + more))).bind fun x =>
      (powerOfTen? (288 + more)).bind x.multiply?).isSome := by
  decide +kernel

/-! ## Scaling -/

section Scaling

variable {x power : Magnitude} {exponent : Int}

theorem scale?_of_natAbs_le (steps : Nat) (h : exponent.natAbs ≤ maxPower) :
    scale? steps x exponent = (powerOfTen? exponent.natAbs).bind fun power =>
      if 0 ≤ exponent then x.multiply? power else x.divide? power := by
  unfold scale?
  exact if_pos h

theorem scale?_zero_of_lt (h : maxPower < exponent.natAbs) (he : exponent < 0) :
    scale? 0 x exponent = some .zero := by
  unfold scale?
  rw [if_neg (Nat.not_le_of_lt h), if_neg (Int.not_le_of_gt he)]
  split <;> rfl

theorem scale?_succ_of_lt (steps : Nat) (h : maxPower < exponent.natAbs) (he : exponent < 0)
    (hx : x ≠ .zero) : scale? (steps + 1) x exponent =
      (powerOfTen? maxPower).bind fun power => (x.divide? power).bind fun y =>
        scale? steps y (exponent + maxPower) := by
  rw [scale?, if_neg (Nat.not_le_of_lt h), if_neg hx, if_neg (Int.not_le_of_gt he)]
  simp only [Option.bind_eq_bind]

theorem scale?_of_zero (steps : Nat) (h : maxPower < exponent.natAbs) :
    scale? steps .zero exponent = some .zero := by
  unfold scale?
  rw [if_neg (Nat.not_le_of_lt h), if_pos rfl]

theorem ofNat?_zero : Magnitude.ofNat? 0 = some .zero := by
  simp only [Magnitude.ofNat?, Magnitude.ofRatio?, Nat.zero_mul, Nat.zero_div]
  rfl

theorem powerOfTen?_eq (n : Nat) : powerOfTen? n = Magnitude.ofRatio? (10 ^ n) 1 :=
  rfl

theorem isSome_powerOfTen?_of_le {m n : Nat} (hm : (powerOfTen? m).isSome) (h : n ≤ m) :
    (powerOfTen? n).isSome := by
  rw [powerOfTen?_eq] at hm ⊢
  exact Magnitude.isSome_ofRatio?_of_le hm (Nat.pow_le_pow_right (by decide) h)

theorem exists_powerOfTen? {n : Nat} (h : n ≤ maxPower) :
    ∃ power, powerOfTen? n = some power ∧ unitsOfOne ≤ power.units := by
  obtain ⟨z, hz⟩ := Option.isSome_iff_exists.1 (isSome_multiply?_largestBelow 20 (Nat.le_refl 20))
  obtain ⟨x, -, hx⟩ := Option.bind_eq_some_iff.1 hz
  obtain ⟨greatest, hgreatest, -⟩ := Option.bind_eq_some_iff.1 hx
  have hle : n ≤ 288 + 20 := h
  have hsome := isSome_powerOfTen?_of_le (Option.isSome_iff_exists.2 ⟨greatest, hgreatest⟩) hle
  obtain ⟨power, hp⟩ := Option.isSome_iff_exists.1 hsome
  obtain ⟨one, hone, hunits⟩ := Magnitude.exists_ofRatio?_two_pow (Nat.zero_le 900)
  rw [Nat.pow_zero, Nat.one_mul] at hunits
  have hone_le : 2 ^ 0 ≤ 10 ^ n := Nat.pow_pos (by decide)
  have hunits_le := Magnitude.units_le_of_ofRatio? hone ((powerOfTen?_eq n).symm.trans hp) hone_le
    Nat.one_pos
  rw [hunits] at hunits_le
  exact ⟨power, hp, hunits_le⟩

/-- The quotient by a power of ten is not larger. -/
theorem exists_divide? (hx : x.units ≤ 2 ^ 64 * unitsOfOne) (hp : unitsOfOne ≤ power.units) :
    ∃ y, x.divide? power = some y ∧ y.units ≤ 2 ^ 64 * unitsOfOne := by
  have hpos : 0 < power.units := Nat.lt_of_lt_of_le Magnitude.unitsOfOne_pos hp
  refine Magnitude.exists_ofRatio? ?_ hpos (by decide)
  calc x.units ≤ 2 ^ 64 * unitsOfOne := hx
    _ ≤ 2 ^ 64 * power.units := Nat.mul_le_mul_left _ hp
    _ = power.units * 2 ^ 64 := Nat.mul_comm _ _

theorem exists_scale?_of_natAbs_le (hx : x.units ≤ 2 ^ 64 * unitsOfOne) (he : exponent < 0)
    (steps : Nat) (h : exponent.natAbs ≤ maxPower) : ∃ y, scale? steps x exponent = some y := by
  obtain ⟨power, hpower, hunits⟩ := exists_powerOfTen? h
  obtain ⟨y, hy, -⟩ := exists_divide? hx hunits
  rw [scale?_of_natAbs_le steps h, hpower, Option.bind_some, if_neg (Int.not_le_of_gt he)]
  exact ⟨y, hy⟩

/-- Scaling down never fails. -/
theorem exists_scale?_of_neg (hx : x.units ≤ 2 ^ 64 * unitsOfOne) (he : exponent < 0)
    (steps : Nat) : ∃ y, scale? steps x exponent = some y := by
  induction steps generalizing x exponent with
  | zero =>
    obtain hlarge | hsmall := Nat.lt_or_ge maxPower exponent.natAbs
    · exact ⟨.zero, scale?_zero_of_lt hlarge he⟩
    · exact exists_scale?_of_natAbs_le hx he 0 hsmall
  | succ steps ih =>
    obtain hlarge | hsmall := Nat.lt_or_ge maxPower exponent.natAbs
    · by_cases hzero : x = .zero
      · subst hzero
        exact ⟨.zero, scale?_of_zero (steps + 1) hlarge⟩
      · obtain ⟨power, hpower, hunits⟩ := exists_powerOfTen? (Nat.le_refl maxPower)
        obtain ⟨y, hy, hle⟩ := exists_divide? hx hunits
        rw [scale?_succ_of_lt steps hlarge he hzero, hpower, Option.bind_some, hy,
          Option.bind_some]
        have hnext : exponent + maxPower < 0 := by
          unfold maxPower at hlarge ⊢
          omega
        exact ih hle hnext
    · exact exists_scale?_of_natAbs_le hx he (steps + 1) hsmall

/-- Scaling up below the threshold does not fail. -/
theorem exists_scale?_of_nonneg {significand exponent : Nat} (hs : significand < 2 ^ 64)
    (h : significand * 10 ^ exponent < Decimal.threshold) (he : exponent ≤ maxPower)
    (hx : Magnitude.ofNat? significand = some x) (steps : Nat) :
    ∃ y, scale? steps x exponent = some y := by
  obtain ⟨more, hmore, hexponent, hle⟩ : ∃ more ≤ 20, exponent ≤ 288 + more ∧
      significand ≤ largestBelow (288 + more) := by
    obtain hsmall | hlarge := Nat.le_total exponent 288
    · have hfits (e : Nat) (he : e ≤ 288) : significand ≤ largestBelow e :=
        le_largestBelow hs (mul_pow_lt_threshold hs he)
      exact ⟨0, Nat.zero_le 20, hsmall, hfits 288 (Nat.le_refl 288)⟩
    · obtain ⟨more, rfl⟩ := Nat.exists_eq_add_of_le hlarge
      exact ⟨more, by unfold maxPower at he; omega, Nat.le_refl _, le_largestBelow hs h⟩
  obtain ⟨z, hz⟩ := Option.isSome_iff_exists.1 (isSome_multiply?_largestBelow more hmore)
  obtain ⟨greatest, hgreatest, hz⟩ := Option.bind_eq_some_iff.1 hz
  obtain ⟨larger, hlarger, hz⟩ := Option.bind_eq_some_iff.1 hz
  obtain ⟨power, hpower, -⟩ := exists_powerOfTen? he
  have hunits := Magnitude.units_le_of_ofRatio? hx hgreatest hle Nat.one_pos
  have hten : 10 ^ exponent ≤ 10 ^ (288 + more) := Nat.pow_le_pow_right (by decide) hexponent
  have hpowers := Magnitude.units_le_of_ofRatio? ((powerOfTen?_eq exponent).symm.trans hpower)
    ((powerOfTen?_eq _).symm.trans hlarger) hten Nat.one_pos
  have hsome := Magnitude.isSome_ofRatio?_of_le (Option.isSome_iff_exists.2 ⟨z, hz⟩)
    (Nat.mul_le_mul hunits hpowers)
  obtain ⟨y, hy⟩ := Option.isSome_iff_exists.1 hsome
  have hsmall : (exponent : Int).natAbs ≤ maxPower := he
  rw [scale?_of_natAbs_le steps hsmall, Int.natAbs_natCast, hpower, Option.bind_some,
    if_pos (Int.natCast_nonneg exponent)]
  exact ⟨y, hy⟩

end Scaling

/-! ## Significand and exponent -/

/-- A significand and an exponent of a number below the threshold. -/
def FitsParts (significand : Nat) (exponent : Int) : Prop :=
  significand < 2 ^ 64 ∧ significand * 10 ^ exponent.toNat < Decimal.threshold

theorem fitsParts_of_le {significand : Nat} {exponent : Int} (hs : significand < 2 ^ 64)
    (he : exponent ≤ 288) : FitsParts significand exponent :=
  ⟨hs, mul_pow_lt_threshold hs (by omega)⟩

variable {significand : Nat} {exponent : Int}

theorem FitsParts.of_le {less : Int} (h : FitsParts significand exponent)
    (hle : less.toNat ≤ exponent.toNat) : FitsParts significand less :=
  ⟨h.1, Nat.lt_of_le_of_lt (Nat.mul_le_mul_left _ (Nat.pow_le_pow_right (by decide) hle)) h.2⟩

/-- Only zero is below the threshold with a large exponent. -/
theorem FitsParts.eq_zero (h : FitsParts significand exponent) (he : 309 ≤ exponent) :
    significand = 0 := by
  refine Nat.eq_zero_of_not_pos fun hpos => ?_
  have hle : 10 ^ 309 ≤ significand * 10 ^ exponent.toNat :=
    calc 10 ^ 309 ≤ 10 ^ exponent.toNat := Nat.pow_le_pow_right (by decide) (by omega)
      _ ≤ significand * 10 ^ exponent.toNat := Nat.le_mul_of_pos_left _ hpos
  exact Nat.lt_irrefl _ (Nat.lt_of_le_of_lt hle (Nat.lt_trans h.2 threshold_lt))

theorem exists_ofParts (negative : Bool) (h : FitsParts significand exponent) :
    ∃ x, ofParts negative significand exponent = .ok (.float x) := by
  have hratio : significand ≤ 1 * 2 ^ 64 := by
    have := h.1
    omega
  obtain ⟨x, hx, hunits⟩ := Magnitude.exists_ofRatio? hratio Nat.one_pos (by decide)
  have hx : Magnitude.ofNat? significand = some x := hx
  obtain ⟨y, hy⟩ : ∃ y, scale? 3 x exponent = some y := by
    obtain hneg | hnonneg := Int.lt_or_le exponent 0
    · exact exists_scale?_of_neg hunits hneg 3
    · obtain hlarge | hsmall := Nat.lt_or_ge maxPower exponent.natAbs
      · obtain rfl := h.eq_zero (by unfold maxPower at hlarge; omega)
        obtain rfl := Option.some.inj (ofNat?_zero.symm.trans hx)
        exact ⟨.zero, scale?_of_zero 3 hlarge⟩
      · obtain ⟨power, rfl⟩ := Int.eq_ofNat_of_zero_le hnonneg
        exact exists_scale?_of_nonneg h.1 h.2 hsmall hx 3
  exact ⟨⟨negative, y⟩, by rw [ofParts, hx, Option.bind_some, hy]; rfl⟩

/-! ## Digits -/

/-- The digits of a number, of which only zero begins with a zero. -/
structure Numeral (digits : List Nat) : Prop where
  small : ∀ d ∈ digits, d < 10
  ne_nil : digits ≠ []
  eq_singleton : digits.head? = some 0 → digits.length = 1

/-- Digits as they are written. -/
def spelled (digits : List Nat) : List Char :=
  digits.map Nat.digitChar

theorem takeDigits_spelled {digits : List Nat} (h : ∀ d ∈ digits, d < 10) (rest : List Char) :
    takeDigits (spelled digits ++ rest) =
      (digits ++ (takeDigits rest).1, (takeDigits rest).2) := by
  induction digits with
  | nil => rfl
  | cons d digits ih =>
    have hd := digit?_digitChar (h d List.mem_cons_self)
    have hrest := ih fun e he => h e (List.mem_cons_of_mem d he)
    simp only [spelled, List.map_cons, List.cons_append, takeDigits, hd]
    simp only [spelled] at hrest
    rw [hrest]

theorem ofDigits_concat (digits : List Nat) (d : Nat) :
    ofDigits (digits ++ [d]) = 10 * ofDigits digits + d := by
  simp [ofDigits, List.foldl_append]

/-- The digits of a number in decimal notation. -/
theorem exists_numeral (n : Nat) :
    ∃ digits, Nat.toDigits 10 n = spelled digits ∧ Numeral digits ∧ ofDigits digits = n := by
  induction n using Nat.strongRecOn with
  | ind n ih =>
    obtain hsmall | hlarge := Nat.lt_or_ge n 10
    · refine ⟨[n], Nat.toDigits_of_lt_base hsmall,
        ⟨by simpa using hsmall, by simp, fun _ => rfl⟩, ?_⟩
      simp [ofDigits]
    · obtain ⟨digits, htext, hnumeral, hvalue⟩ := ih (n / 10) (by omega)
      refine ⟨digits ++ [n % 10], ?_, ⟨?_, by simp, ?_⟩, ?_⟩
      · rw [Nat.toDigits_of_base_le (by decide) hlarge, htext]
        simp [spelled]
      · intro d hd
        obtain hd | hd := List.mem_append.1 hd
        · exact hnumeral.small d hd
        · obtain rfl := List.mem_singleton.1 hd
          exact Nat.mod_lt n (by decide)
      · intro hhead
        obtain ⟨d, rest, rfl⟩ := List.exists_cons_of_ne_nil hnumeral.ne_nil
        obtain rfl : rest = [] := List.eq_nil_of_length_eq_zero (by
          simpa using hnumeral.eq_singleton hhead)
        obtain rfl : d = 0 := by simpa using hhead
        simp [ofDigits] at hvalue
        omega
      · rw [ofDigits_concat, hvalue]
        exact Nat.div_add_mod n 10

theorem foldl_digits_le (start : Nat) (digits : List Nat) :
    start * 10 ^ digits.length ≤ digits.foldl (fun n d => 10 * n + d) start := by
  induction digits generalizing start with
  | nil => simp
  | cons d digits ih =>
    calc start * 10 ^ (digits.length + 1)
        = 10 * start * 10 ^ digits.length := by rw [Nat.pow_succ', ← Nat.mul_assoc, Nat.mul_comm 10]
      _ ≤ (10 * start + d) * 10 ^ digits.length := Nat.mul_le_mul_right _ (Nat.le_add_right _ d)
      _ ≤ _ := ih (10 * start + d)

theorem absorb_length (start : Nat) (digits : List Nat) :
    (absorb start digits).2.1 + (absorb start digits).2.2 = digits.length := by
  induction digits generalizing start with
  | nil => rfl
  | cons d digits ih =>
    simp only [absorb]
    split
    · have hrest := ih (start * 10 + d)
      generalize absorb (start * 10 + d) digits = absorbed at hrest ⊢
      obtain ⟨value, taken, left⟩ := absorbed
      dsimp only [List.length_cons] at hrest ⊢
      omega
    · simp

/-- The digits that are left over stand for less than the number goes on with. -/
theorem absorb_mul_le (start : Nat) (digits : List Nat) :
    (absorb start digits).1 * 10 ^ (absorb start digits).2.2 ≤
      digits.foldl (fun n d => 10 * n + d) start := by
  induction digits generalizing start with
  | nil => simp [absorb]
  | cons d digits ih =>
    simp only [absorb]
    split
    · rw [List.foldl_cons, Nat.mul_comm 10]
      exact ih (start * 10 + d)
    · exact foldl_digits_le start (d :: digits)

/-! ## Texts -/

section Texts

variable {negative : Bool} {digits whole fraction : List Nat} {cs rest : List Char}

theorem readUnsigned_of_numeral (h : Numeral digits) (ht : takeDigits cs = (digits, rest)) :
    readUnsigned negative cs = readAfterDigits negative digits rest := by
  unfold readUnsigned
  rw [ht]
  match digits, h with
  | [], h => exact absurd rfl h.ne_nil
  | 0 :: _ :: _, h =>
    have := h.eq_singleton rfl
    simp at this
  | [0], _ => rfl
  | (d + 1) :: _, _ => rfl

theorem readAfterDigits_point (digits : List Nat) (cs : List Char) :
    readAfterDigits negative digits ('.' :: cs) =
      readFraction negative (absorb 0 digits).1 (absorb 0 digits).2.2 cs :=
  rfl

theorem readAfterDigits_exponent (digits : List Nat) (cs : List Char) :
    readAfterDigits negative digits ('e' :: cs) =
      readExponent negative (absorb 0 digits).1 (absorb 0 digits).2.2 cs :=
  rfl

section Fraction

variable {significand left : Nat}

theorem readFraction_of_end (ht : takeDigits cs = (digits, [])) (hne : digits ≠ []) :
    readFraction negative significand left cs =
      (ofParts negative (absorb significand digits).1 (left - (absorb significand digits).2.1)).map
        fun number => (number, []) := by
  unfold readFraction
  rw [ht]
  exact if_neg (by simpa using hne)

theorem readFraction_of_exponent (ht : takeDigits cs = (digits, 'e' :: rest)) (hne : digits ≠ []) :
    readFraction negative significand left cs =
      readExponent negative (absorb significand digits).1
        (left - (absorb significand digits).2.1) rest := by
  unfold readFraction
  rw [ht]
  exact if_neg (by simpa using hne)

end Fraction

/-- A number without exponent, with not too many digits before its point. -/
theorem exists_readUnsigned_point (negative : Bool) (hw : Numeral whole) (hlen : whole.length ≤ 16)
    (hf : ∀ d ∈ fraction, d < 10) (hne : fraction ≠ []) :
    ∃ x, readUnsigned negative (spelled whole ++ '.' :: spelled fraction) =
      .ok (.float x, []) := by
  have hwhole := takeDigits_spelled hw.small ('.' :: spelled fraction)
  have hfraction := takeDigits_spelled hf []
  have hpoint : takeDigits ('.' :: spelled fraction) = ([], '.' :: spelled fraction) := rfl
  simp only [takeDigits, List.append_nil] at hfraction
  rw [hpoint, List.append_nil] at hwhole
  rw [readUnsigned_of_numeral hw hwhole, readAfterDigits_point, readFraction_of_end hfraction hne]
  have hlength := absorb_length 0 whole
  have hlt := absorb_lt (absorb_lt (by decide : 0 < 2 ^ 64) whole) fraction
  have hexponent :
      ((absorb 0 whole).2.2 : Int) - (absorb (absorb 0 whole).1 fraction).2.1 ≤ 16 := by omega
  obtain ⟨x, hx⟩ :=
    exists_ofParts negative (fitsParts_of_le hlt (Int.le_trans hexponent (by decide)))
  exact ⟨x, by rw [hx]; rfl⟩

/-- The digits of an exponent, after its sign. -/
theorem exists_readExponentDigits (negative : Bool) {significand : Nat} {start : Int} {down : Bool}
    (hs : significand < 2 ^ 64) (hd : Numeral digits) (hup : down = false →
      ofDigits digits ≤ maxExponent ∧ FitsParts significand (start + ofDigits digits))
    (hstart : start ≤ 16) :
    ∃ x, readExponentDigits negative significand start down (spelled digits) =
      .ok (.float x, []) := by
  have hdigits := takeDigits_spelled hd.small []
  simp only [takeDigits, List.append_nil] at hdigits
  have hempty : ¬ digits.isEmpty = true := by simpa using hd.ne_nil
  unfold readExponentDigits
  rw [hdigits]
  dsimp only
  rw [if_neg hempty]
  split
  · rename_i hlarge
    cases down with
    | true => exact ⟨⟨negative, .zero⟩, by simp⟩
    | false => exact absurd hlarge (Nat.not_lt_of_le (hup rfl).1)
  · -- Keeping the exponent in its range makes it no larger, unless it is negative.
    have hfits : FitsParts significand (max (-maxExponent - 1)
        (min maxExponent (if down then start - ofDigits digits else start + ofDigits digits))) := by
      cases down with
      | true => exact fitsParts_of_le hs (by simp only [maxExponent, if_true]; omega)
      | false => exact (hup rfl).2.of_le (by simp only [maxExponent]; split <;> omega)
    obtain ⟨x, hx⟩ := exists_ofParts negative hfits
    exact ⟨x, by rw [hx]; rfl⟩

/-! ## Decimals -/

section Decimals

variable {decimal : Decimal} {d : Nat}

theorem ofDigits_cons (d : Nat) (digits : List Nat) :
    ofDigits (d :: digits) = digits.foldl (fun n d => 10 * n + d) d := by
  simp [ofDigits]

/-- A decimal below the threshold has no more than 309 digits before its point. -/
theorem leading_lt_of_below (h : decimal.Below) (hvalue : ofDigits (d :: digits) = decimal.digits)
    (hd : 0 < d) : decimal.exponent + digits.length < 309 := by
  have hle : 10 ^ digits.length ≤ decimal.digits := by
    rw [← hvalue, ofDigits_cons]
    exact Nat.le_trans (Nat.le_mul_of_pos_left _ hd) (foldl_digits_le d digits)
  have hlt : 10 ^ (digits.length + decimal.exponent.toNat) <
      10 ^ (309 + (-decimal.exponent).toNat) := by
    rw [Nat.pow_add, Nat.pow_add 10 309]
    calc 10 ^ digits.length * 10 ^ decimal.exponent.toNat
        ≤ decimal.digits * 10 ^ decimal.exponent.toNat := Nat.mul_le_mul_right _ hle
      _ < Decimal.threshold * 10 ^ (-decimal.exponent).toNat := h
      _ ≤ 10 ^ 309 * 10 ^ (-decimal.exponent).toNat :=
        Nat.mul_le_mul_right _ (Nat.le_of_lt threshold_lt)
  have := (Nat.pow_lt_pow_iff_right (by decide)).1 hlt
  omega

/-- The significand that is read from the digits of a decimal, and the exponent that makes up for
those left over. -/
theorem fitsParts_of_below (h : decimal.Below) (hvalue : ofDigits (d :: digits) = decimal.digits)
    (hd : d < 10) :
    FitsParts (absorb d digits).1
      (-(absorb d digits).2.1 + (decimal.exponent + digits.length)) := by
  have hlength := absorb_length d digits
  have hle := absorb_mul_le d digits
  have hlt := absorb_lt (Nat.lt_trans hd (by decide)) digits
  rw [← ofDigits_cons, hvalue] at hle
  generalize absorb d digits = absorbed at hlength hle hlt ⊢
  obtain ⟨significand, taken, left⟩ := absorbed
  dsimp only at hlength hle hlt ⊢
  rw [show -(taken : Int) + (decimal.exponent + digits.length) = decimal.exponent + left by omega]
  obtain hsmall | hlarge := Int.lt_or_le (decimal.exponent + left) 0
  · exact fitsParts_of_le hlt (by omega)
  refine ⟨hlt, Nat.lt_of_mul_lt_mul_right (a := 10 ^ (-decimal.exponent).toNat) ?_⟩
  calc significand * 10 ^ (decimal.exponent + left).toNat * 10 ^ (-decimal.exponent).toNat
      = significand * 10 ^ left * 10 ^ decimal.exponent.toNat := by
        rw [Nat.mul_assoc, Nat.mul_assoc, ← Nat.pow_add, ← Nat.pow_add]
        congr 2
        omega
    _ ≤ decimal.digits * 10 ^ decimal.exponent.toNat := Nat.mul_le_mul_right _ hle
    _ < Decimal.threshold * 10 ^ (-decimal.exponent).toNat := h

/-- How a decimal's exponent is written. -/
def exponentText (leading : Int) : List Char :=
  (if leading < 0 then '-' else '+') :: Nat.toDigits 10 leading.natAbs

theorem exists_readExponent (negative : Bool) {significand : Nat} {start leading : Int}
    (hs : significand < 2 ^ 64) (hstart : start ≤ 16) (hlt : leading < 309)
    (hfits : FitsParts significand (start + leading)) :
    ∃ x, readExponent negative significand start (exponentText leading) = .ok (.float x, []) := by
  obtain ⟨digits, htext, hnumeral, hvalue⟩ := exists_numeral leading.natAbs
  rw [exponentText, htext]
  by_cases hneg : leading < 0
  · rw [if_pos hneg]
    exact exists_readExponentDigits negative hs hnumeral (fun hdown => by cases hdown) hstart
  · rw [if_neg hneg]
    refine exists_readExponentDigits negative hs hnumeral (fun _ => ⟨?_, ?_⟩) hstart
    · rw [hvalue, maxExponent]
      omega
    · rwa [hvalue, Int.natAbs_of_nonneg (Int.not_lt.1 hneg)]

/-- A number with an exponent, with one digit before its point. -/
theorem exists_readUnsigned_scientific (negative : Bool) (h : decimal.Below)
    (hvalue : ofDigits (d :: digits) = decimal.digits) (hsmall : ∀ e ∈ d :: digits, e < 10)
    (hd : 0 < d) :
    ∃ x, readUnsigned negative
      (spelled [d] ++ ((if digits = [] then [] else '.' :: spelled digits) ++
        'e' :: exponentText (decimal.exponent + digits.length))) = .ok (.float x, []) := by
  obtain ⟨hd10, hdigits⟩ := List.forall_mem_cons.1 hsmall
  have hnumeral : Numeral [d] := ⟨by simpa using hd10, by simp, fun _ => rfl⟩
  have habsorb : absorb 0 [d] = (d, 1, 0) := by
    rw [absorb_cons (by omega), Nat.zero_mul, Nat.zero_add]
    rfl
  obtain ⟨x, hx⟩ := exists_readExponent negative
    (absorb_lt (Nat.lt_trans hd10 (by decide)) digits) (by omega)
    (leading_lt_of_below h hvalue hd) (fitsParts_of_below h hvalue hd10)
  refine ⟨x, ?_⟩
  have hstop (tail : List Char) : takeDigits ('e' :: tail) = ([], 'e' :: tail) := rfl
  have hpoint (tail : List Char) : takeDigits ('.' :: tail) = ([], '.' :: tail) := rfl
  by_cases hnil : digits = []
  · subst hnil
    rw [if_pos rfl, List.nil_append]
    have htake := takeDigits_spelled hnumeral.small
      ('e' :: exponentText (decimal.exponent + ([] : List Nat).length))
    rw [hstop, List.append_nil] at htake
    rw [readUnsigned_of_numeral hnumeral htake, readAfterDigits_exponent, habsorb]
    exact hx
  · rw [if_neg hnil, List.cons_append]
    have htake := takeDigits_spelled hnumeral.small
      ('.' :: (spelled digits ++ 'e' :: exponentText (decimal.exponent + digits.length)))
    have hfraction := takeDigits_spelled hdigits
      ('e' :: exponentText (decimal.exponent + digits.length))
    rw [hpoint, List.append_nil] at htake
    rw [hstop, List.append_nil] at hfraction
    rw [readUnsigned_of_numeral hnumeral htake, readAfterDigits_point, habsorb,
      readFraction_of_exponent hfraction hnil]
    simpa using hx

theorem spelled_append (digits more : List Nat) :
    spelled (digits ++ more) = spelled digits ++ spelled more :=
  List.map_append

theorem spelled_zeros (count : Nat) :
    spelled (List.replicate count 0) = List.replicate count '0' :=
  List.map_replicate

theorem small_zeros (count : Nat) : ∀ d ∈ List.replicate count 0, d < 10 := by
  intro d hd
  rw [(List.mem_replicate.1 hd).2]
  decide

theorem numeral_zero : Numeral [0] :=
  ⟨by decide, by decide, fun _ => rfl⟩

/-- The text of a decimal in positional notation. -/
theorem exists_readUnsigned_positional (negative : Bool) {exponent leading : Int}
    (hn : Numeral (d :: digits)) (hd : 0 < d) (hleading : leading = exponent + digits.length)
    (hle : leading ≤ 15) :
    ∃ x, readUnsigned negative
      (if 0 ≤ exponent then
        spelled (d :: digits) ++ List.replicate exponent.toNat '0' ++ ['.', '0']
      else if 0 ≤ leading then
        (spelled (d :: digits)).take (leading.toNat + 1) ++ ['.'] ++
          (spelled (d :: digits)).drop (leading.toNat + 1)
      else ['0', '.'] ++ List.replicate (-leading - 1).toNat '0' ++ spelled (d :: digits)) =
        .ok (.float x, []) := by
  have hhead (more : List Nat) : (d :: more).head? = some 0 → (d :: more).length = 1 :=
    fun h => absurd (Option.some.inj h) (Nat.ne_of_gt hd)
  have hzero : spelled [0] = ['0'] := rfl
  split
  · -- The zeros up to the point are written.
    have hwhole : Numeral (d :: (digits ++ List.replicate exponent.toNat 0)) := by
      refine ⟨fun e he => ?_, by simp, hhead _⟩
      obtain he | he := List.mem_append.1 (List.cons_append ▸ he : e ∈ d :: digits ++ _)
      · exact hn.small e he
      · exact small_zeros _ e he
    rw [← spelled_zeros, ← spelled_append, List.cons_append, ← hzero]
    exact exists_readUnsigned_point negative hwhole (by simp; omega) (by decide) (by decide)
  · split
    · -- The point stands between the digits.
      have hwhole : Numeral (d :: digits.take leading.toNat) :=
        ⟨fun e he => hn.small e (List.mem_of_mem_take (i := leading.toNat + 1) he), by simp,
          hhead _⟩
      have hfraction : ∀ e ∈ digits.drop leading.toNat, e < 10 := fun e he =>
        hn.small e (List.mem_cons_of_mem d (List.mem_of_mem_drop he))
      rw [spelled, ← List.map_take, ← List.map_drop, List.take_succ_cons, List.drop_succ_cons,
        List.append_assoc]
      exact exists_readUnsigned_point negative hwhole (by simp; omega) hfraction
        (by rw [Ne, List.drop_eq_nil_iff]; omega)
    · -- There are zeros after the point.
      have hfraction : ∀ e ∈ List.replicate (-leading - 1).toNat 0 ++ (d :: digits), e < 10 := by
        intro e he
        obtain he | he := List.mem_append.1 he
        · exact small_zeros _ e he
        · exact hn.small e he
      rw [← spelled_zeros, List.append_assoc, ← spelled_append]
      exact exists_readUnsigned_point negative numeral_zero (by decide) hfraction (by simp)

theorem exists_readUnsigned_decimalText (negative : Bool) (h : decimal.Below) :
    ∃ x, readUnsigned negative (decimalText decimal) = .ok (.float x, []) := by
  obtain ⟨digits, htext, hnumeral, hvalue⟩ := exists_numeral decimal.digits
  unfold decimalText
  rw [htext]
  have hlength : (spelled digits).length = digits.length := List.length_map _
  dsimp only
  rw [hlength]
  by_cases hzero : decimal.digits = 0
  · have hspelled : ['0', '.', '0'] = spelled [0] ++ '.' :: spelled [0] := rfl
    rw [if_pos hzero, hspelled]
    exact exists_readUnsigned_point negative numeral_zero (by decide) (by decide) (by decide)
  rw [if_neg hzero]
  obtain ⟨d, rest, rfl⟩ := List.exists_cons_of_ne_nil hnumeral.ne_nil
  have hd : 0 < d := by
    refine Nat.pos_of_ne_zero fun hd => ?_
    subst hd
    obtain rfl : rest = [] := List.eq_nil_of_length_eq_zero (by
      simpa using hnumeral.eq_singleton rfl)
    exact hzero (hvalue.symm.trans (by rfl))
  have hleading : decimal.exponent + (d :: rest).length - 1 = decimal.exponent + rest.length := by
    simp only [List.length_cons]
    omega
  rw [hleading]
  split
  · rename_i hpositional
    simp only [Bool.and_eq_true, decide_eq_true_eq] at hpositional
    exact exists_readUnsigned_positional negative hnumeral hd rfl hpositional.2
  · obtain ⟨x, hx⟩ := exists_readUnsigned_scientific negative h hvalue hnumeral.small hd
    refine ⟨x, ?_⟩
    rw [← hx]
    congr 1
    cases rest with
    | nil => rfl
    | cons e rest => simp [spelled, exponentText]

theorem readUnsigned_greatest (negative : Bool) :
    readUnsigned negative (decimalText (Decimal.shortest .greatest)) =
      .ok (.float ⟨negative, .greatest⟩, []) := by
  have hread : ∀ negative, (readUnsigned negative
      (decimalText (Decimal.shortest .greatest))).toOption =
        some (.float ⟨negative, .greatest⟩, []) := by decide +kernel
  have hread := hread negative
  revert hread
  cases readUnsigned negative (decimalText (Decimal.shortest .greatest)) with
  | error e => exact fun h => by cases h
  | ok result => exact fun h => congrArg Except.ok (Option.some.inj h)

/-- The text of a magnitude that has room for mantissa and exponent. -/
theorem exists_readUnsigned_shortest (negative : Bool) {x : Magnitude} (hx : x.Finite) :
    ∃ y, readUnsigned negative (decimalText (Decimal.shortest x)) = .ok (.float y, []) := by
  by_cases hgreatest : x = .greatest
  · subst hgreatest
    exact ⟨⟨negative, .greatest⟩, readUnsigned_greatest negative⟩
  · exact exists_readUnsigned_decimalText negative (Decimal.below_shortest hx hgreatest)

/-- The text of a floating point number is read as a floating point number. -/
theorem exists_read_text {x : Binary64} (hx : x.magnitude.Finite) :
    ∃ y, Number.read (text (.float x)) = .ok (.float y, []) := by
  obtain ⟨y, hy⟩ := exists_readUnsigned_shortest x.negative hx
  refine ⟨y, ?_⟩
  rw [text]
  cases hneg : x.negative with
  | true =>
    rw [hneg] at hy
    exact hy
  | false =>
    rw [hneg] at hy
    simp only [Bool.false_eq_true, if_false, List.nil_append]
    unfold Number.read
    split
    · rename_i rest hrest
      rw [hrest] at hy
      cases hy
    · exact hy

end Decimals

end Texts

end Findings.Number
