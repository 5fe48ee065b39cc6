import Mathlib.Algebra.Order.Field.Power
import Mathlib.Algebra.Order.Field.Rat
import Mathlib.Data.Int.Log
import Mathlib.Data.Rat.Floor
import Mathlib.Tactic.Ring
import RecordPath.Decimal.Shortest

namespace RecordPath

namespace BinaryFormat

section Round

variable {num den num' den' k : Nat}

theorem roundDiv_mul (h : 0 < k) (num den : Nat) :
    roundDiv (num * k) (den * k) = roundDiv num den := by
  have below : 2 * (num % den * k) < den * k ↔ 2 * (num % den) < den := by
    rw [← Nat.mul_assoc, Nat.mul_lt_mul_right h]
  have half : 2 * (num % den * k) = den * k ↔ 2 * (num % den) = den := by
    rw [← Nat.mul_assoc, Nat.mul_left_inj h.ne']
  simp only [roundDiv, Nat.mul_div_mul_right num den h, Nat.mul_mod_mul_right, below, half]

theorem roundDiv_congr (positive : 0 < den) (positive' : 0 < den')
    (h : num * den' = num' * den) : roundDiv num den = roundDiv num' den' := by
  rw [← roundDiv_mul positive' num den, ← roundDiv_mul positive num' den', h, Nat.mul_comm den]

theorem div_le_roundDiv (num den : Nat) : num / den ≤ roundDiv num den := by
  unfold roundDiv
  dsimp only
  split
  · exact Nat.le_refl _
  · exact Nat.le_succ _

theorem roundDiv_le_succ (num den : Nat) : roundDiv num den ≤ num / den + 1 := by
  unfold roundDiv
  dsimp only
  split
  · exact Nat.le_succ _
  · exact Nat.le_refl _

theorem roundDiv_le_roundDiv (h : num ≤ num') (den : Nat) :
    roundDiv num den ≤ roundDiv num' den := by
  rcases Nat.lt_or_eq_of_le (Nat.div_le_div_right (c := den) h) with less | same
  · calc roundDiv num den ≤ num / den + 1 := roundDiv_le_succ num den
      _ ≤ num' / den := less
      _ ≤ roundDiv num' den := div_le_roundDiv num' den
  · have rests : num % den ≤ num' % den := by
      have whole := Nat.div_add_mod num den
      have whole' := Nat.div_add_mod num' den
      rw [same] at whole
      omega
    unfold roundDiv
    dsimp only
    rw [same]
    split
    · split <;> omega
    · split <;> omega

def roundAt (num den : Nat) : Int → Nat
  | .ofNat e => roundDiv num (den * Nat.pow 2 e)
  | .negSucc e => roundDiv (num * Nat.pow 2 (e + 1)) den

theorem roundAt_congr (positive : 0 < den) (positive' : 0 < den') (h : num * den' = num' * den)
    (scale : Int) : roundAt num den scale = roundAt num' den' scale := by
  cases scale with
  | ofNat e =>
      refine roundDiv_congr (Nat.mul_pos positive (Nat.two_pow_pos e))
        (Nat.mul_pos positive' (Nat.two_pow_pos e)) ?_
      rw [← Nat.mul_assoc, h, Nat.mul_assoc]
  | negSucc e =>
      refine roundDiv_congr positive positive' ?_
      rw [Nat.mul_right_comm, h, Nat.mul_right_comm]

theorem nearest_eq (format : BinaryFormat) (nonzero : num ≠ 0) (den : Nat) :
    format.nearest num den =
      let scale := max format.leastExponent (binaryExponent num den - format.fractionBits)
      min format.infinite ((scale - format.leastExponent).toNat * Nat.pow 2 format.fractionBits
        + roundAt num den scale) := by
  rw [nearest, if_neg nonzero]
  rfl

theorem zpow_le_div_iff (positive : 0 < den) (e : Int) :
    (match e with
      | .ofNat e => decide (den * Nat.pow 2 e ≤ num)
      | .negSucc e => decide (den ≤ num * Nat.pow 2 (e + 1))) = true ↔
      (2 : ℚ) ^ e ≤ (num : ℚ) / den := by
  have den_pos : (0 : ℚ) < den := by exact_mod_cast positive
  cases e with
  | ofNat e =>
      rw [decide_eq_true_eq, le_div_iff₀ den_pos, Int.ofNat_eq_natCast, zpow_natCast, mul_comm]
      exact_mod_cast Iff.rfl
  | negSucc e =>
      rw [decide_eq_true_eq, le_div_iff₀ den_pos, zpow_negSucc, inv_mul_le_iff₀ (by positivity),
        mul_comm]
      exact_mod_cast Iff.rfl

theorem log_div_bounds (num_pos : 0 < num) (positive : 0 < den) :
    (num.log2 : Int) - den.log2 - 1 ≤ Int.log 2 ((num : ℚ) / den) ∧
      Int.log 2 ((num : ℚ) / den) < (num.log2 : Int) - den.log2 + 1 := by
  have den_pos : (0 : ℚ) < den := by exact_mod_cast positive
  have value_pos : (0 : ℚ) < (num : ℚ) / den := div_pos (by exact_mod_cast num_pos) den_pos
  have num_low : (2 : ℚ) ^ num.log2 ≤ num := by exact_mod_cast Nat.log2_self_le num_pos.ne'
  have num_high : (num : ℚ) < 2 ^ (num.log2 + 1) := by exact_mod_cast Nat.lt_log2_self
  have den_low : (2 : ℚ) ^ den.log2 ≤ den := by exact_mod_cast Nat.log2_self_le positive.ne'
  have den_high : (den : ℚ) < 2 ^ (den.log2 + 1) := by exact_mod_cast Nat.lt_log2_self
  constructor
  · rw [← Int.zpow_le_iff_le_log (by decide) value_pos, le_div_iff₀ den_pos]
    have half : (2 : ℚ) ^ ((num.log2 : Int) - den.log2 - 1) * 2 ^ (den.log2 + 1) =
        2 ^ num.log2 := by
      rw [← zpow_natCast, ← zpow_natCast, ← zpow_add₀ two_ne_zero]
      congr 1
      push_cast
      ring
    calc ((2 : ℕ) : ℚ) ^ ((num.log2 : Int) - den.log2 - 1) * den
        ≤ (2 : ℚ) ^ ((num.log2 : Int) - den.log2 - 1) * 2 ^ (den.log2 + 1) := by
          push_cast
          gcongr
      _ = 2 ^ num.log2 := half
      _ ≤ num := num_low
  · rw [← Int.lt_zpow_iff_log_lt (by decide) value_pos, div_lt_iff₀ den_pos]
    have twice : (2 : ℚ) ^ ((num.log2 : Int) - den.log2 + 1) * 2 ^ den.log2 =
        2 ^ (num.log2 + 1) := by
      rw [← zpow_natCast, ← zpow_natCast, ← zpow_add₀ two_ne_zero]
      congr 1
      push_cast
      ring
    calc (num : ℚ) < 2 ^ (num.log2 + 1) := num_high
      _ = (2 : ℚ) ^ ((num.log2 : Int) - den.log2 + 1) * 2 ^ den.log2 := twice.symm
      _ ≤ ((2 : ℕ) : ℚ) ^ ((num.log2 : Int) - den.log2 + 1) * den := by
          push_cast
          gcongr

theorem binaryExponent_eq_log (num_pos : 0 < num) (positive : 0 < den) :
    binaryExponent num den = Int.log 2 ((num : ℚ) / den) := by
  have value_pos : (0 : ℚ) < (num : ℚ) / den := by positivity
  obtain ⟨low, high⟩ := log_div_bounds num_pos positive
  have fits : ((2 : ℕ) : ℚ) ^ ((num.log2 : Int) - den.log2) ≤ (num : ℚ) / den ↔
      (num.log2 : Int) - den.log2 ≤ Int.log 2 ((num : ℚ) / den) :=
    Int.zpow_le_iff_le_log (by decide) value_pos
  have guess : binaryExponent num den =
      if (2 : ℚ) ^ ((num.log2 : Int) - den.log2) ≤ (num : ℚ) / den
      then (num.log2 : Int) - den.log2 else (num.log2 : Int) - den.log2 - 1 :=
    if_congr (zpow_le_div_iff positive _) rfl rfl
  push_cast at fits
  rw [guess]
  split
  · rename_i fit
    have := fits.1 fit
    omega
  · rename_i unfit
    have := mt fits.2 unfit
    omega

theorem binaryExponent_congr (num_pos : 0 < num) (num_pos' : 0 < num') (positive : 0 < den)
    (positive' : 0 < den') (h : num * den' = num' * den) :
    binaryExponent num den = binaryExponent num' den' := by
  have value : (num : ℚ) / den = (num' : ℚ) / den' := by
    rw [div_eq_div_iff (by exact_mod_cast positive.ne') (by exact_mod_cast positive'.ne')]
    exact_mod_cast h
  rw [binaryExponent_eq_log num_pos positive, binaryExponent_eq_log num_pos' positive', value]

theorem nearest_congr (format : BinaryFormat) (positive : 0 < den) (positive' : 0 < den')
    (h : num * den' = num' * den) : format.nearest num den = format.nearest num' den' := by
  by_cases zero : num = 0
  · have zero' : num' = 0 := by
      rw [zero, Nat.zero_mul] at h
      exact (Nat.mul_eq_zero.1 h.symm).resolve_right positive.ne'
    simp [nearest, zero, zero']
  · have zero' : num' ≠ 0 := by
      rintro rfl
      rw [Nat.zero_mul] at h
      exact (Nat.mul_ne_zero zero positive'.ne') h
    have exponent := binaryExponent_congr (Nat.pos_of_ne_zero zero) (Nat.pos_of_ne_zero zero')
      positive positive' h
    rw [nearest_eq format zero, nearest_eq format zero', exponent]
    simp only [roundAt_congr positive positive' h]

end Round

section Fraction

variable {format : BinaryFormat} {bits : Nat}

theorem den_fraction_pos (format : BinaryFormat) (bits : Nat) :
    0 < (format.fraction bits).2 := by
  unfold fraction
  split
  · exact Nat.one_pos
  · exact Nat.two_pow_pos _

theorem value_fraction (format : BinaryFormat) (bits : Nat) :
    ((format.fraction bits).1 : ℚ) / (format.fraction bits).2 =
      format.mantissa bits * (2 : ℚ) ^ format.exponent bits := by
  unfold fraction
  split
  · rename_i e he
    rw [he]
    simp
  · rename_i e he
    rw [he, zpow_negSucc]
    simp [div_eq_mul_inv]

theorem log_mul_zpow {n : Nat} (n_pos : 0 < n) (e : Int) :
    Int.log 2 ((n : ℚ) * 2 ^ e) = n.log2 + e := by
  have low : (2 : ℚ) ^ n.log2 ≤ n := by exact_mod_cast Nat.log2_self_le n_pos.ne'
  have high : (n : ℚ) < 2 ^ (n.log2 + 1) := by exact_mod_cast Nat.lt_log2_self
  have value_pos : (0 : ℚ) < n * 2 ^ e := by positivity
  have above : (n.log2 : Int) + e ≤ Int.log 2 ((n : ℚ) * 2 ^ e) := by
    rw [← Int.zpow_le_iff_le_log (by decide) value_pos, Nat.cast_ofNat, zpow_add₀ two_ne_zero,
      zpow_natCast]
    gcongr
  have below : Int.log 2 ((n : ℚ) * 2 ^ e) < (n.log2 : Int) + 1 + e := by
    rw [← Int.lt_zpow_iff_log_lt (by decide) value_pos, Nat.cast_ofNat, zpow_add₀ two_ne_zero]
    gcongr
    exact_mod_cast high
  omega

theorem scaled_mantissa (bits : Nat) (mantissa_pos : 0 < format.mantissa bits) :
    max format.leastExponent (format.exponent bits + (format.mantissa bits).log2
      - format.fractionBits) = format.exponent bits ∧
      (format.exponent bits - format.leastExponent).toNat * Nat.pow 2 format.fractionBits
        + format.mantissa bits = bits := by
  have one_pos : 0 < Nat.pow 2 format.fractionBits := Nat.two_pow_pos _
  unfold mantissa exponent at *
  simp only at mantissa_pos ⊢
  by_cases small : bits / Nat.pow 2 format.fractionBits = 0
  · rw [if_pos small] at mantissa_pos ⊢
    have below : bits < 2 ^ format.fractionBits := by
      rcases Nat.div_eq_zero_iff.1 small with h | h
      · exact absurd h one_pos.ne'
      · exact h
    have := (Nat.log2_lt mantissa_pos.ne').2 below
    rw [small]
    constructor
    · omega
    · simp
  · rw [if_neg small]
    have rest := Nat.mod_lt bits one_pos
    have log : (Nat.pow 2 format.fractionBits + bits % Nat.pow 2 format.fractionBits).log2 =
        format.fractionBits := by
      rw [Nat.log2_eq_iff (by omega)]
      exact ⟨Nat.le_add_right _ _, by rw [Nat.pow_succ]; change _ < Nat.pow 2 _ * 2; omega⟩
    rw [log]
    obtain ⟨k, hk⟩ := Nat.exists_eq_add_of_lt (Nat.pos_of_ne_zero small)
    have whole := Nat.div_add_mod bits (Nat.pow 2 format.fractionBits)
    rw [Nat.zero_add] at hk
    rw [hk] at whole ⊢
    constructor
    · omega
    · have shift : (format.leastExponent + ((k + 1 - 1 : Nat) : Int) - format.leastExponent).toNat =
          k := by omega
      rw [shift]
      rw [Nat.mul_succ, Nat.mul_comm] at whole
      omega

theorem roundAt_fraction (format : BinaryFormat) (bits : Nat) :
    roundAt (format.fraction bits).1 (format.fraction bits).2 (format.exponent bits) =
      format.mantissa bits := by
  unfold fraction roundAt
  cases format.exponent bits with
  | ofNat e => simpa using roundDiv_mul_right (format.mantissa bits) (Nat.two_pow_pos e)
  | negSucc e => exact roundDiv_mul_right (format.mantissa bits) (Nat.two_pow_pos (e + 1))

theorem nearest_fraction (finite : bits < format.infinite) :
    format.nearest (format.fraction bits).1 (format.fraction bits).2 = bits := by
  rcases Nat.eq_zero_or_pos (format.mantissa bits) with zero_mantissa | mantissa_pos
  · have zero : bits = 0 := by
      unfold mantissa at zero_mantissa
      simp only at zero_mantissa
      split at zero_mantissa
      · exact zero_mantissa
      · have : 0 < Nat.pow 2 format.fractionBits := Nat.two_pow_pos _
        omega
    have num : (format.fraction bits).1 = 0 := by
      unfold fraction
      split <;> simp [zero_mantissa]
    rw [nearest, if_pos num, zero]
  · obtain ⟨scale, sum⟩ := scaled_mantissa bits mantissa_pos
    have num : 0 < (format.fraction bits).1 := by
      unfold fraction
      split
      · exact Nat.mul_pos mantissa_pos (Nat.two_pow_pos _)
      · exact mantissa_pos
    have exponent : binaryExponent (format.fraction bits).1 (format.fraction bits).2 =
        format.exponent bits + (format.mantissa bits).log2 := by
      rw [binaryExponent_eq_log num (den_fraction_pos format bits), value_fraction,
        log_mul_zpow mantissa_pos, Int.add_comm]
    rw [nearest_eq format num.ne', exponent, scale]
    simp only [roundAt_fraction, sum, Nat.min_eq_right (Nat.le_of_lt finite)]

end Fraction

end BinaryFormat

namespace Decimal

def value (d : Decimal) : ℚ :=
  d.digits * (10 : ℚ) ^ d.exponent

variable {format : BinaryFormat} {bits : Nat} {d d' : Decimal}

theorem den_fraction_pos (d : Decimal) : 0 < d.fraction.2 := by
  unfold fraction
  split
  · exact Nat.one_pos
  · exact Nat.pow_pos (by decide)

theorem value_eq_fraction (d : Decimal) : d.value = (d.fraction.1 : ℚ) / d.fraction.2 := by
  unfold value fraction
  cases d.exponent with
  | ofNat e => simp
  | negSucc e => simp [zpow_negSucc, div_eq_mul_inv]

theorem magnitude_congr (format : BinaryFormat) (h : d.value = d'.value) :
    d.magnitude format = d'.magnitude format := by
  have positive : (d.fraction.2 : ℚ) ≠ 0 := by exact_mod_cast (den_fraction_pos d).ne'
  have positive' : (d'.fraction.2 : ℚ) ≠ 0 := by exact_mod_cast (den_fraction_pos d').ne'
  rw [value_eq_fraction, value_eq_fraction, div_eq_div_iff positive positive'] at h
  exact BinaryFormat.nearest_congr format (den_fraction_pos d) (den_fraction_pos d')
    (by exact_mod_cast h)

theorem magnitude_exact (finite : bits < format.infinite) :
    (exact format bits).magnitude format = bits := by
  refine Eq.trans ?_ (BinaryFormat.nearest_fraction finite)
  refine BinaryFormat.nearest_congr format (den_fraction_pos _)
    (BinaryFormat.den_fraction_pos format bits) ?_
  unfold exact fraction BinaryFormat.fraction
  cases format.exponent bits with
  | ofNat e => simp
  | negSucc e =>
      have tens : Nat.pow 10 (e + 1) = Nat.pow 5 (e + 1) * Nat.pow 2 (e + 1) :=
        Nat.mul_pow 5 2 (e + 1)
      simp only [tens]
      ring

theorem magnitude_shortest (finite : bits < format.infinite) :
    (shortest format bits).magnitude format = bits := by
  simp only [shortest]
  cases found : (List.range 17).findSome? fun (n : Nat) => neighbour? format bits
      (leadingExponent (format.fraction bits).1 (format.fraction bits).2 - n) with
  | none => exact magnitude_exact finite
  | some d =>
      obtain ⟨n, -, hn⟩ := List.exists_of_findSome?_eq_some found
      exact neighbour?_reads_back hn

end Decimal

end RecordPath
