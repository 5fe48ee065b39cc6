import RecordPath.Proofs.Decimal.Doubles
import RecordPath.Proofs.Decimal.Nearest

namespace RecordPath

namespace Double

open Float.Model UnpackedFloat BinaryFormat

section Rounding

variable {m k : Nat} {e : Int}

theorem shifted (m k : Nat) :
    ExtendedMantissa.ofMantissaAndAccuracy m .exact >>> k =
      ⟨m / 2 ^ k, decide (2 ^ k ≤ 2 * (m % 2 ^ k)), decide (2 * (m % 2 ^ k) % 2 ^ k ≠ 0)⟩ := by
  change k.repeat ExtendedMantissa.shiftRightOne _ = _
  induction k with
  | zero => simp [Nat.repeat, ExtendedMantissa.ofMantissaAndAccuracy, Nat.mod_one]
  | succ k ih =>
      -- The bit shifted out now says whether it is a half, all bits before whether there is more.
      have below := Nat.mod_lt m (Nat.two_pow_pos k)
      have rest : m % 2 ^ (k + 1) = m % 2 ^ k + 2 ^ k * (m / 2 ^ k % 2) := by
        rw [Nat.pow_succ, Nat.mod_mul]
      have half : 2 ^ (k + 1) ≤ 2 * (m % 2 ^ (k + 1)) ↔ m / 2 ^ k % 2 ≠ 0 := by
        rw [rest, Nat.pow_succ]
        rcases Nat.mod_two_eq_zero_or_one (m / 2 ^ k) with h | h <;> rw [h] <;> omega
      have besides : 2 * (m % 2 ^ (k + 1)) % 2 ^ (k + 1) = 2 * (m % 2 ^ k) := by
        rw [Nat.pow_succ, Nat.mul_comm _ 2, Nat.mul_mod_mul_left, Nat.mod_mul_left_mod]
      have something : 2 ^ k ≤ 2 * (m % 2 ^ k) ∨ 2 * (m % 2 ^ k) % 2 ^ k ≠ 0 ↔
          2 * (m % 2 ^ k) ≠ 0 := by
        by_cases small : 2 * (m % 2 ^ k) < 2 ^ k
        · rw [Nat.mod_eq_of_lt small]
          omega
        · omega
      have bit : (m / 2 ^ k % 2 != 0) = decide (m / 2 ^ k % 2 ≠ 0) := by
        rw [Bool.eq_iff_iff, bne_iff_ne, decide_eq_true_eq]
      rw [Nat.repeat, ih, ExtendedMantissa.shiftRightOne]
      simp only [half, besides, ← Bool.decide_or, something, bit, Nat.div_div_eq_div_mul,
        ← Nat.pow_succ]

theorem roundedMantissa_shifted (m k : Nat) :
    (ExtendedMantissa.ofMantissaAndAccuracy m .exact >>> k).roundedMantissa =
      roundDiv m (2 ^ k) := by
  have below := Nat.mod_lt m (Nat.two_pow_pos k)
  rw [shifted]
  unfold ExtendedMantissa.roundedMantissa roundDiv
  dsimp only
  rcases Nat.lt_trichotomy (2 * (m % 2 ^ k)) (2 ^ k) with less | half | more
  · rw [if_pos (.inl less), decide_eq_false (Nat.not_le.2 less)]
    cases decide (2 * (m % 2 ^ k) % 2 ^ k ≠ 0) <;> rfl
  · rw [half, Nat.mod_self, decide_eq_true (Nat.le_refl _)]
    change m / 2 ^ k + m / 2 ^ k % 2 = _
    split <;> omega
  · have rest : 2 * (m % 2 ^ k) % 2 ^ k = 2 * (m % 2 ^ k) - 2 ^ k := by
      rw [Nat.mod_eq_sub_mod (Nat.le_of_lt more), Nat.mod_eq_of_lt (by omega)]
    rw [if_neg (by omega), decide_eq_true (Nat.le_of_lt more), decide_eq_true (by omega)]
    rfl

theorem shiftToTargetExponent_eq (bits : m.log2 = 52 + k) (normal : -1074 ≤ e + k) :
    shiftToTargetExponent Format.binary64 m e .exact =
      (ExtendedMantissa.ofMantissaAndAccuracy m .exact >>> k, e + k) := by
  have target : Format.binary64.targetExponent (totalExponent m e) = e + k := by
    change max ((m.log2 : Int) + 1 + e - 53) (-1074) = _
    omega
  have amount : (e + k - e).toNat = k := by omega
  rw [shiftToTargetExponent, target, shiftToExponent, amount]

theorem roundDiv_bounds (bits : m.log2 = 52 + k) :
    2 ^ 52 ≤ roundDiv m (2 ^ k) ∧ roundDiv m (2 ^ k) ≤ 2 ^ 53 := by
  have nonzero : m ≠ 0 := by
    rintro rfl
    have : Nat.log2 0 = 0 := rfl
    omega
  have low := Nat.log2_self_le nonzero
  have high := @Nat.lt_log2_self m
  rw [bits, Nat.pow_add] at low
  rw [bits, Nat.add_right_comm, Nat.pow_add] at high
  have above := (Nat.le_div_iff_mul_le (Nat.two_pow_pos k)).2 low
  have below := (Nat.div_lt_iff_lt_mul (Nat.two_pow_pos k)).2 high
  have := div_le_roundDiv m (2 ^ k)
  have := roundDiv_le_succ m (2 ^ k)
  omega

theorem exists_roundWithAccuracy (sign : Sign) (bits : m.log2 = 52 + k)
    (normal : -1074 ≤ e + k) : ∃ m' k' positive,
      roundWithAccuracy Format.binary64 sign m e .exact =
        .finite sign m' (e + (k' : Nat)) positive ∧
        2 ^ 52 ≤ m' ∧ m' < 2 ^ 53 ∧ k ≤ k' ∧ k' ≤ k + 1 ∧
          m' * 2 ^ k' = roundDiv m (2 ^ k) * 2 ^ k := by
  obtain ⟨low, high⟩ := roundDiv_bounds bits
  rw [roundWithAccuracy, shiftToTargetExponent_eq bits normal]
  dsimp only
  rw [roundedMantissa_shifted]
  generalize roundDiv m (2 ^ k) = q at low high
  -- Rounded up, all ones become one bit more, and the mantissa is shifted once again.
  rcases Nat.lt_or_eq_of_le high with less | full
  · have bits' : q.log2 = 52 + 0 := (Nat.log2_eq_iff (by omega)).2 ⟨low, less⟩
    rw [shiftToTargetExponent_eq bits' (by omega), shifted]
    dsimp only
    rw [Nat.pow_zero, Nat.div_one, dif_neg (by omega)]
    exact ⟨q, k, by omega, by rw [Int.natCast_zero, Int.add_zero], low, less, Nat.le_refl k,
      Nat.le_succ k, rfl⟩
  · have bits' : q.log2 = 52 + 1 := by rw [full]; rfl
    rw [shiftToTargetExponent_eq bits' (by omega), shifted, full]
    dsimp only
    rw [dif_neg (by decide)]
    refine ⟨2 ^ 52, k + 1, by decide, ?_, by decide, by decide, Nat.le_succ k, Nat.le_refl _, ?_⟩
    · rw [Int.natCast_add, Int.add_assoc]
      rfl
    · rw [Nat.pow_succ]
      omega

end Rounding

structure IsNormal (m : Nat) (e : Int) : Prop where
  low : 2 ^ 52 ≤ m
  high : m < 2 ^ 53
  least : -1074 ≤ e
  greatest : e ≤ 971

section Packing

variable {sign : Sign} {m : Nat} {e : Int}

def biased (e : Int) : Nat :=
  (e + (1023 : Nat) + (52 : Nat)).toNat

theorem pack_finite (positive : 0 < m) (normal : IsNormal m e) :
    UnpackedFloat.pack Format.binary64 (.finite sign m e positive) =
      packComponents Format.binary64 sign (.ofNat 11 (biased e)) (.ofNat 52 m) := by
  have bits : m.log2 = 52 := (Nat.log2_eq_iff positive.ne').2 ⟨normal.low, normal.high⟩
  have := normal.greatest
  unfold UnpackedFloat.pack
  dsimp only
  rw [if_neg, if_pos]
  · rfl
  · rw [bits]
    rfl
  · change ¬ 2 ^ 11 ≤ biased e + 1
    unfold biased
    omega

theorem unpack_pack (positive : 0 < m) (normal : IsNormal m e) :
    (Float.Model.pack (.finite sign m e positive)).unpack = .finite sign m e positive := by
  obtain ⟨low, high, least, greatest⟩ := normal
  have exponent : (BitVec.ofNat 11 (biased e)).toNat = biased e := by
    rw [BitVec.toNat_ofNat, Nat.mod_eq_of_lt]
    unfold biased
    omega
  have mantissa : (1#1 ++ BitVec.ofNat 52 m).toNat = m := by
    rw [BitVec.toNat_append, Nat.shiftLeft_eq, Nat.mul_comm,
      ← Nat.two_pow_add_eq_or_of_lt (BitVec.isLt _)]
    change 2 ^ 52 * 1 + m % 2 ^ 52 = m
    omega
  have field_ne {n : Nat} (h : biased e ≠ (BitVec.ofNat 11 n).toNat) :
      BitVec.ofNat 11 (biased e) ≠ .ofNat 11 n := fun same => h (exponent ▸ congrArg _ same)
  change UnpackedFloat.unpack Format.binary64
    (UnpackedFloat.pack Format.binary64 (.finite sign m e positive)) = _
  rw [pack_finite positive ⟨low, high, least, greatest⟩]
  simp only [UnpackedFloat.unpack, unpackExponent_packComponents, unpackMantissa_packComponents,
    unpackSign_packComponents, Sign.ofBitVec_toBitVec]
  -- The fields of zeros and of ones are those of subnormal numbers and of infinity.
  rw [if_neg, if_neg]
  · refine (finite.injEq ..).mpr ⟨rfl, mantissa, ?_⟩
    rw [exponent]
    change (biased e : Int) - ((1023 : Nat) + (52 : Nat)) = e
    unfold biased
    omega
  · refine field_ne (n := 0) ?_
    change biased e ≠ 0
    unfold biased
    omega
  · refine field_ne (n := 2 ^ 11 - 1) ?_
    change biased e ≠ 2 ^ 11 - 1
    unfold biased
    omega

end Packing

section Order

variable {m m' : Nat} {e e' : Int}

theorem scaled_lt (high : m < 2 ^ 53) (low : 2 ^ 52 ≤ m') (h : e < e') :
    (m : ℚ) * 2 ^ e < m' * 2 ^ e' := by
  have scale : (2 : ℚ) ^ e * 2 ≤ 2 ^ e' := by
    rw [← zpow_add_one₀ two_ne_zero]
    exact zpow_le_zpow_right₀ one_le_two h
  have high' : (m : ℚ) < 2 ^ 53 := by exact_mod_cast high
  have low' : (2 : ℚ) ^ 52 ≤ m' := by exact_mod_cast low
  calc (m : ℚ) * 2 ^ e < 2 ^ 53 * 2 ^ e := by gcongr
    _ = 2 ^ 52 * (2 ^ e * 2) := by ring
    _ ≤ m' * 2 ^ e' := by gcongr

theorem IsNormal.lt_iff (h : IsNormal m e) (h' : IsNormal m' e') :
    (m : ℚ) * 2 ^ e < m' * 2 ^ e' ↔ (compare e e').then (compare m m') = .lt := by
  rcases lt_trichotomy e e' with less | same | more
  · rw [Int.compare_eq_lt.2 less]
    exact iff_of_true (scaled_lt h.high h'.low less) rfl
  · subst same
    have positive : (0 : ℚ) < 2 ^ e := by positivity
    rw [mul_lt_mul_iff_left₀ positive, Int.compare_eq_eq.2 rfl, Nat.cast_lt]
    exact Nat.compare_eq_lt.symm
  · rw [Int.compare_eq_gt.2 more]
    exact iff_of_false (scaled_lt h'.high h.low more).not_gt (by rintro ⟨⟩)

theorem IsNormal.scaled_pos (h : IsNormal m e) : (0 : ℚ) < m * 2 ^ e := by
  have mantissa_pos : (0 : ℚ) < m := by exact_mod_cast Nat.lt_of_lt_of_le (Nat.two_pow_pos 52) h.low
  positivity

end Order

inductive Denotes : Int → UnpackedFloat → Prop
  | zero (sign : Sign) : Denotes 0 (.zero sign)
  | positive {v : Int} {m : Nat} {e : Int} (pos : 0 < m) : IsNormal m e →
      (v : ℚ) = m * 2 ^ e → Denotes v (.finite .positive m e pos)
  | negative {v : Int} {m : Nat} {e : Int} (pos : 0 < m) : IsNormal m e →
      (v : ℚ) = -(m * 2 ^ e) → Denotes v (.finite .negative m e pos)

namespace Denotes

variable {v v' : Int} {u u' : UnpackedFloat}

theorem neg (h : Denotes v u) : Denotes (-v) u.neg := by
  cases h with
  | zero sign => exact .zero (-sign)
  | positive pos normal value => exact .negative pos normal (by rw [Int.cast_neg, value])
  | negative pos normal value => exact .positive pos normal (by rw [Int.cast_neg, value, neg_neg])

theorem pack (h : Denotes v u) : Denotes v (Float.Model.pack u).unpack := by
  cases h with
  | zero sign => cases sign <;> exact .zero _
  | positive pos normal value =>
      rw [unpack_pack pos normal]
      exact .positive pos normal value
  | negative pos normal value =>
      rw [unpack_pack pos normal]
      exact .negative pos normal value

theorem lt_iff (h : Denotes v u) (h' : Denotes v' u') : u.lt u' = true ↔ v < v' := by
  unfold UnpackedFloat.lt
  rw [beq_iff_eq, ← Int.cast_lt (R := ℚ)]
  cases h with
  | zero sign =>
      cases h' with
      | zero sign' => exact iff_of_false (by rintro ⟨⟩) (lt_irrefl _)
      | positive pos' normal' value' =>
          rw [Int.cast_zero, value']
          exact iff_of_true rfl normal'.scaled_pos
      | negative pos' normal' value' =>
          rw [Int.cast_zero, value']
          exact iff_of_false (by rintro ⟨⟩) (neg_neg_of_pos normal'.scaled_pos).not_gt
  | positive pos normal value =>
      cases h' with
      | zero sign' =>
          rw [Int.cast_zero, value]
          exact iff_of_false (by rintro ⟨⟩) normal.scaled_pos.not_gt
      | positive pos' normal' value' =>
          rw [value, value', normal.lt_iff normal']
          simp only [UnpackedFloat.compare, Option.some.injEq]
      | negative pos' normal' value' =>
          rw [value, value']
          exact iff_of_false (by rintro ⟨⟩)
            ((neg_neg_of_pos normal'.scaled_pos).trans normal.scaled_pos).not_gt
  | negative pos normal value =>
      cases h' with
      | zero sign' =>
          rw [Int.cast_zero, value]
          exact iff_of_true rfl (neg_neg_of_pos normal.scaled_pos)
      | positive pos' normal' value' =>
          rw [value, value']
          exact iff_of_true rfl ((neg_neg_of_pos normal.scaled_pos).trans normal'.scaled_pos)
      | negative pos' normal' value' =>
          rw [value, value', neg_lt_neg_iff, normal'.lt_iff normal]
          simp only [UnpackedFloat.compare, Option.some.injEq, Ordering.swap_then,
            Int.compare_swap, Nat.compare_swap]

end Denotes

theorem denotes_roundWithAccuracy {v m k : Nat} {e : Int} (bits : m.log2 = 52 + k)
    (least : -1074 ≤ e + k) (greatest : e + k < 971)
    (value : (v : ℚ) = roundDiv m (2 ^ k) * 2 ^ k * (2 : ℚ) ^ e) :
    Denotes v (roundWithAccuracy Format.binary64 .positive m e .exact) := by
  obtain ⟨m', k', positive, rounded, low, high, above, below, same⟩ :=
    exists_roundWithAccuracy .positive bits least
  rw [rounded]
  refine .positive positive ⟨low, high, by omega, by omega⟩ ?_
  have scaled : (m' : ℚ) * 2 ^ k' = roundDiv m (2 ^ k) * 2 ^ k := by exact_mod_cast same
  rw [Int.cast_natCast, value, ← scaled, zpow_add₀ two_ne_zero, zpow_natCast]
  ring

/-- The number of 53 bits nearest to a whole number, of two such the one with the even last bit. -/
def nearestNat (n : Nat) : Nat :=
  roundDiv n (2 ^ (n.log2 - 52)) * 2 ^ (n.log2 - 52)

section OfNat

variable {n : Nat}

theorem nearestNat_of_le (h : n ≤ 2 ^ 53) : nearestNat n = n := by
  rcases Nat.lt_or_eq_of_le h with less | rfl
  · have bits : n.log2 - 52 = 0 := by
      by_cases zero : n = 0
      · rw [zero]
        rfl
      · have := (Nat.log2_lt zero).2 less
        omega
    rw [nearestNat, bits, Nat.pow_zero, Nat.mul_one]
    simpa using roundDiv_mul_right n Nat.one_pos
  · decide

theorem log2_mul_two_pow (nonzero : n ≠ 0) (k : Nat) : (n * 2 ^ k).log2 = n.log2 + k := by
  rw [Nat.log2_eq_iff (Nat.mul_ne_zero nonzero (Nat.two_pow_pos k).ne'), Nat.pow_add,
    Nat.add_right_comm, Nat.pow_add]
  exact ⟨Nat.mul_le_mul_right _ (Nat.log2_self_le nonzero),
    Nat.mul_lt_mul_of_pos_right Nat.lt_log2_self (Nat.two_pow_pos k)⟩

theorem ofUInt64_eq {k : Nat} (nonzero : n ≠ 0) (bound : n < 2 ^ 64) (log : n.log2 + k = 52) :
    UnpackedFloat.ofUInt64 Format.binary64 n.toUInt64 =
      roundWithAccuracy Format.binary64 .positive (n * 2 ^ k) (0 - (k : Int)) .exact := by
  have word : n.toUInt64.toNat = n := Nat.mod_eq_of_lt bound
  have compared : compare ((n : Nat) : Int) 0 = .gt := Int.compare_eq_gt.2 (by omega)
  have target : Format.binary64.targetExponent (totalExponent n 0) = -(k : Int) := by
    change max ((n.log2 : Int) + 1 + 0 - 53) (-1074) = _
    omega
  have amount : (0 - -(k : Int)).toNat = k := by omega
  change UnpackedFloat.normalize Format.binary64 (n.toUInt64.toNat : Nat) 0 .positive = _
  rw [word, UnpackedFloat.normalize, compared]
  dsimp only
  rw [Int.toNat_natCast, UnpackedFloat.round, target, decreaseExponent, amount, Nat.shiftLeft_eq]

theorem denotes_toFloat (nonzero : n ≠ 0) (h : n < 2 ^ 53) :
    Denotes n n.toUInt64.toFloat.toModel.unpack := by
  have log : n.log2 < 53 := (Nat.log2_lt nonzero).2 h
  obtain ⟨k, hk⟩ := Nat.exists_eq_add_of_le (Nat.le_of_lt_succ log)
  have bits : (n * 2 ^ k).log2 = 52 + 0 := by
    rw [log2_mul_two_pow nonzero]
    exact hk.symm
  change Denotes n (Float.Model.pack (UnpackedFloat.ofUInt64 Format.binary64 n.toUInt64)).unpack
  rw [ofUInt64_eq nonzero (by omega) hk.symm]
  refine (denotes_roundWithAccuracy bits (by omega) (by omega) ?_).pack
  have whole := roundDiv_mul_right (n * 2 ^ k) Nat.one_pos
  rw [Nat.mul_one] at whole
  rw [Nat.pow_zero, whole, zero_sub, zpow_neg, zpow_natCast]
  push_cast
  field_simp

theorem exponent_lt {m : Nat} {e : Int} (low : 2 ^ 52 ≤ m) (bound : n < 2 ^ 64)
    (value : (n : ℚ) = m * 2 ^ e) : e < 12 := by
  have low' : (2 : ℚ) ^ 52 ≤ m := by exact_mod_cast low
  have scaled_lt : (2 : ℚ) ^ 52 * 2 ^ e < 2 ^ 52 * 2 ^ (12 : Int) := by
    calc (2 : ℚ) ^ 52 * 2 ^ e ≤ m * 2 ^ e := by gcongr
      _ = n := value.symm
      _ < 2 ^ 64 := by exact_mod_cast bound
      _ = 2 ^ 52 * 2 ^ (12 : Int) := by norm_num
  rw [← zpow_lt_zpow_iff_right₀ (one_lt_two : (1 : ℚ) < 2)]
  exact lt_of_mul_lt_mul_left scaled_lt (by positivity)

theorem denotes_mul_one {u : UnpackedFloat} (h : Denotes n u) (nonzero : n ≠ 0)
    (bound : n < 2 ^ 64) : Denotes n (UnpackedFloat.mul Format.binary64 u
      (.finite .positive (2 ^ 52) (-52) (by decide))) := by
  generalize hv : (n : Int) = v at h
  have whole : (v : ℚ) = n := by rw [← hv, Int.cast_natCast]
  cases h with
  | zero sign => omega
  | @negative v m e positive normal value =>
      have below : (0 : ℚ) ≤ v := whole ▸ n.cast_nonneg
      rw [value] at below
      exact absurd (neg_neg_of_pos normal.scaled_pos) below.not_gt
  | @positive v m e positive normal value =>
      rw [whole] at value
      have small := exponent_lt normal.low bound value
      have least := normal.least
      have bits : (m * 2 ^ 52).log2 = 52 + 52 := by
        rw [log2_mul_two_pow positive.ne',
          (Nat.log2_eq_iff positive.ne').2 ⟨normal.low, normal.high⟩]
      rw [← hv]
      refine denotes_roundWithAccuracy bits (by omega) (by omega) ?_
      rw [roundDiv_mul_right m (Nat.two_pow_pos 52), value, zpow_add₀ two_ne_zero]
      ring

/-- A small number is taken as a machine word, times one. -/
theorem denotes_ofNat_of_lt (nonzero : n ≠ 0) (h : n < 2 ^ 53) :
    Denotes n (Float.ofNat n).toModel.unpack := by
  have fast : Float.ofNat n = n.toUInt64.toFloat * Float.ofBits 0x3FF0000000000000 := by
    unfold Float.ofNat
    exact dif_pos ⟨h, Nat.zero_le 22⟩
  have one : (Float.ofBits 0x3FF0000000000000).toModel.unpack =
      .finite .positive (2 ^ 52) (-52) (by decide) := rfl
  rw [fast]
  change Denotes n (Float.Model.pack (UnpackedFloat.mul Format.binary64 _
    (Float.ofBits 0x3FF0000000000000).toModel.unpack)).unpack
  rw [one]
  exact (denotes_mul_one (denotes_toFloat nonzero h) nonzero (by omega)).pack

/-- A great number is taken as a decimal without an exponent. -/
theorem denotes_ofNat_of_le (low : 2 ^ 53 ≤ n) (high : n < 2 ^ 64) :
    Denotes (nearestNat n) (Float.ofNat n).toModel.unpack := by
  have nonzero : n ≠ 0 := by omega
  have slow : Float.ofNat n =
      .ofModel (.pack (UnpackedFloat.ofScientific Format.binary64 n 0)) := by
    unfold Float.ofNat
    exact dif_neg fun fits => Nat.not_lt.2 low fits.1
  have scientific : UnpackedFloat.ofScientific Format.binary64 n 0 =
      roundWithAccuracy Format.binary64 .positive ((n <<< 53) * 1) (-53 + 0) .exact := by
    have moderate : ¬ (0 : Int) < -((2 : Int) ^ 11 + n.log2) := by omega
    unfold UnpackedFloat.ofScientific
    rw [dif_neg nonzero, if_neg (by decide), if_neg moderate, if_pos (Int.le_refl 0)]
    rfl
  have log' : n.log2 < 64 := (Nat.log2_lt nonzero).2 high
  obtain ⟨k, hk⟩ := Nat.exists_eq_add_of_le ((Nat.le_log2 nonzero).2 low)
  have bits : (n * 2 ^ 53).log2 = 52 + (k + 1 + 53) := by
    rw [log2_mul_two_pow nonzero]
    omega
  have unit : n.log2 - 52 = k + 1 := by omega
  rw [slow, scientific, Nat.mul_one, Nat.shiftLeft_eq]
  refine (denotes_roundWithAccuracy bits (by omega) (by omega) ?_).pack
  rw [nearestNat, unit, Nat.pow_add 2 (k + 1) 53, roundDiv_mul (Nat.two_pow_pos 53)]
  push_cast
  rw [pow_add _ (k + 1) 53]
  norm_num
  ring

theorem denotes_ofNat (h : n < 2 ^ 64) : Denotes (nearestNat n) (Float.ofNat n).toModel.unpack := by
  rcases Nat.lt_or_ge n (2 ^ 53) with small | great
  · rw [nearestNat_of_le (Nat.le_of_lt small)]
    rcases Nat.eq_zero_or_pos n with rfl | n_pos
    · exact .zero .positive
    · exact denotes_ofNat_of_lt n_pos.ne' small
  · exact denotes_ofNat_of_le great h

theorem nearestNat_bounds (nonzero : n ≠ 0) :
    2 ^ n.log2 ≤ nearestNat n ∧ nearestNat n ≤ 2 ^ (n.log2 + 1) := by
  by_cases small : n < 2 ^ 53
  · rw [nearestNat_of_le (Nat.le_of_lt small)]
    exact ⟨Nat.log2_self_le nonzero, Nat.le_of_lt Nat.lt_log2_self⟩
  · have log : 53 ≤ n.log2 := (Nat.le_log2 nonzero).2 (Nat.le_of_not_lt small)
    obtain ⟨k, hk⟩ := Nat.exists_eq_add_of_le (Nat.le_of_succ_le log)
    obtain ⟨low, high⟩ := roundDiv_bounds hk
    have unit : n.log2 - 52 = k := by omega
    rw [nearestNat, unit, hk, Nat.add_right_comm, Nat.pow_add, Nat.pow_add]
    exact ⟨Nat.mul_le_mul_right _ low, Nat.mul_le_mul_right _ high⟩

theorem nearestNat_le_nearestNat {n' : Nat} (h : n ≤ n') : nearestNat n ≤ nearestNat n' := by
  rcases Nat.eq_zero_or_pos n with rfl | n_pos
  · exact Nat.zero_le _
  · have nonzero' : n' ≠ 0 := by omega
    have logs : n.log2 ≤ n'.log2 :=
      (Nat.le_log2 nonzero').2 (Nat.le_trans (Nat.log2_self_le n_pos.ne') h)
    rcases Nat.lt_or_eq_of_le logs with less | same
    · calc nearestNat n ≤ 2 ^ (n.log2 + 1) := (nearestNat_bounds n_pos.ne').2
        _ ≤ 2 ^ n'.log2 := Nat.pow_le_pow_right (by decide) less
        _ ≤ nearestNat n' := (nearestNat_bounds nonzero').1
    · rw [nearestNat, nearestNat, same]
      exact Nat.mul_le_mul_right _ (roundDiv_le_roundDiv h _)

end OfNat

def nearestInt : Int → Int
  | .ofNat n => nearestNat n
  | .negSucc n => -nearestNat (n + 1)

theorem nearestInt_le_nearestInt {n n' : Int} (h : n ≤ n') : nearestInt n ≤ nearestInt n' := by
  cases n with
  | ofNat n =>
      cases n' with
      | ofNat n' => exact Int.ofNat_le.2 (nearestNat_le_nearestNat (Int.ofNat_le.1 h))
      | negSucc n' =>
          have negative := Int.lt_of_le_of_lt h (Int.negSucc_lt_zero n')
          exact absurd negative (Int.not_lt.2 (Int.natCast_nonneg n))
  | negSucc n =>
      cases n' with
      | ofNat n' =>
          exact Int.le_trans (Int.neg_nonpos_of_nonneg (Int.natCast_nonneg _))
            (Int.natCast_nonneg _)
      | negSucc n' =>
          have flipped : n' + 1 ≤ n + 1 := by omega
          exact Int.neg_le_neg (Int.ofNat_le.2 (nearestNat_le_nearestNat flipped))

theorem nearestInt_of_natAbs_le {n : Int} (h : n.natAbs ≤ 2 ^ 53) : nearestInt n = n := by
  cases n with
  | ofNat n => exact congrArg Int.ofNat (nearestNat_of_le h)
  | negSucc n => exact congrArg Int.negOfNat (nearestNat_of_le h)

theorem inRange_iff {n : Int} : Number.inRange n = true ↔ -2 ^ 63 ≤ n ∧ n < 2 ^ 64 := by
  rw [Number.inRange, Bool.and_eq_true, decide_eq_true_eq, decide_eq_true_eq, Number.least,
    Number.greatest]
  omega

theorem denotes_ofInt {n : Int} (h : Number.inRange n = true) :
    Denotes (nearestInt n) (Float.ofInt n).toModel.unpack := by
  obtain ⟨low, high⟩ := inRange_iff.1 h
  cases n with
  | ofNat n => exact denotes_ofNat (Int.ofNat_lt.1 high)
  | negSucc n =>
      have bound : n + 1 < 2 ^ 64 := by omega
      exact (denotes_ofNat bound).neg.pack

theorem ofInt_lt_iff {n n' : Int} (h : Number.inRange n = true) (h' : Number.inRange n' = true) :
    Float.ofInt n < Float.ofInt n' ↔ nearestInt n < nearestInt n' := by
  refine Iff.trans ?_ ((denotes_ofInt h).lt_iff (denotes_ofInt h'))
  change (decide ((Float.ofInt n).toModel < (Float.ofInt n').toModel)) = true ↔ _
  rw [decide_eq_true_eq]
  exact Iff.rfl

end Double

end RecordPath
