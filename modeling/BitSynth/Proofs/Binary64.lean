import Mathlib
import BitSynth.Decimal.Binary64

namespace BitSynth.Decimal

namespace Binary64

theorem exponentField_toNat (bits : UInt64) :
    ((bits >>> 52) &&& 0x7FF).toNat = bits.toNat / 2 ^ 52 % 2 ^ 11 := by
  rw [UInt64.toNat_and, UInt64.toNat_shiftRight, Nat.shiftRight_eq_div_pow]
  exact Nat.and_two_pow_sub_one_eq_mod _ 11

theorem fractionField_toNat (bits : UInt64) : (bits &&& 0xFFFFFFFFFFFFF).toNat = bits.toNat % 2 ^ 52 := by
  rw [UInt64.toNat_and]
  exact Nat.and_two_pow_sub_one_eq_mod _ 52

/-- A normal value's sign, mantissa and exponent read off the bits of its word. -/
theorem decode_normal {bits : UInt64} (hb0 : bits.toNat / 2 ^ 52 % 2 ^ 11 ≠ 0)
    (hb : bits.toNat / 2 ^ 52 % 2 ^ 11 ≠ 2 ^ 11 - 1) :
    decode bits = .finite (bits.toNat / 2 ^ 63 == 1) (bits.toNat % 2 ^ 52 + 2 ^ 52)
      ((bits.toNat / 2 ^ 52 % 2 ^ 11 : Nat) - 1075)
      (bits.toNat % 2 ^ 52 == 0 && bits.toNat / 2 ^ 52 % 2 ^ 11 > 1) := by
  have hsr : ∀ k : UInt64, k.toNat < 64 → (bits >>> k).toNat = bits.toNat / 2 ^ k.toNat := by
    intro k hk
    rw [UInt64.toNat_shiftRight, Nat.shiftRight_eq_div_pow, Nat.mod_eq_of_lt hk]
  have hneg : (bits >>> 63 == 1) = (bits.toNat / 2 ^ 63 == 1) := by
    rw [Bool.eq_iff_iff, beq_iff_eq, beq_iff_eq, ← UInt64.toNat_inj, hsr 63 (by decide)]
    rfl
  unfold decode
  simp only [exponentField_toNat, fractionField_toNat, hneg]
  rw [if_neg (by simpa using hb), if_neg (by simpa using hb0)]
  rfl

theorem log2Floor_one {n : Nat} (h : 0 < n) : log2Floor n 1 = n.log2 := by
  have hle : 2 ^ n.log2 ≤ n := Nat.log2_self_le (by omega)
  have hone : Nat.log2 1 = 0 := by decide
  unfold log2Floor atLeastPow2
  simp [Nat.pow_eq, hle, hone]

theorem divRoundEven_mul (a : Nat) {d : Nat} (hd : 0 < d) : divRoundEven (a * d) d = a := by
  unfold divRoundEven
  simp [Nat.mul_div_cancel _ hd, Nat.mul_mod_left]
  omega

theorem log2_le_53 {n : Nat} (h0 : 0 < n) (hn : n ≤ 2 ^ 53) : n.log2 ≤ 53 := by
  by_contra he
  have hpow : 2 ^ 54 ≤ 2 ^ n.log2 := Nat.pow_le_pow_right (by omega) (by omega)
  have hlo : 2 ^ n.log2 ≤ n := Nat.log2_self_le (by omega)
  omega

/-- An integer of at most 53 bits is a binary64 value: its bits hold the integer scaled to a
53-bit mantissa `q` and its binary exponent. -/
theorem nearestBits_int {n : Nat} (h0 : 0 < n) (hn : n ≤ 2 ^ 53) :
    ∃ q, q * 2 ^ n.log2 = n * 2 ^ 52 ∧ 2 ^ 52 ≤ q ∧ q < 2 ^ 53 ∧
      (nearestBits n 1).toNat = (n.log2 + 1022) * 2 ^ 52 + q := by
  have hlo : 2 ^ n.log2 ≤ n := Nat.log2_self_le (by omega)
  have hhi : n < 2 ^ (n.log2 + 1) := Nat.lt_log2_self
  have he := log2_le_53 h0 hn
  -- the mantissa: the integer shifted left, or halved for `2 ^ 53` itself
  obtain ⟨q, hq, hqe, hq1, hq2⟩ : ∃ q, (if 0 ≤ (n.log2 : Int) - 52
      then divRoundEven n (1 * Nat.pow 2 ((n.log2 : Int) - 52).toNat)
      else divRoundEven (n * Nat.pow 2 (-((n.log2 : Int) - 52)).toNat) 1) = q ∧
      q * 2 ^ n.log2 = n * 2 ^ 52 ∧ 2 ^ 52 ≤ q ∧ q < 2 ^ 53 := by
    rcases Nat.lt_or_ge n.log2 52 with hlt | hge
    · refine ⟨n * 2 ^ (52 - n.log2), ?_, ?_, ?_, ?_⟩
      · rw [if_neg (by omega), show (-((n.log2 : Int) - 52)).toNat = 52 - n.log2 by omega,
          ← Nat.mul_one (n * _)]
        exact divRoundEven_mul _ (by omega)
      · rw [Nat.mul_assoc, ← Nat.pow_add, Nat.sub_add_cancel (by omega)]
      · calc 2 ^ 52 = 2 ^ n.log2 * 2 ^ (52 - n.log2) := by rw [← Nat.pow_add]; congr 1; omega
          _ ≤ n * 2 ^ (52 - n.log2) := Nat.mul_le_mul_right _ hlo
      · calc n * 2 ^ (52 - n.log2) < 2 ^ (n.log2 + 1) * 2 ^ (52 - n.log2) :=
            Nat.mul_lt_mul_of_pos_right hhi (Nat.two_pow_pos _)
          _ = 2 ^ 53 := by rw [← Nat.pow_add]; congr 1; omega
    · obtain he52 | he53 : n.log2 = 52 ∨ n.log2 = 53 := by omega
      · -- a 53-bit integer is its own mantissa
        refine ⟨n, ?_, by rw [he52], by rw [he52] at hlo; exact hlo, by rw [he52] at hhi; exact hhi⟩
        rw [if_pos (by omega), he52]
        simpa [Nat.pow_eq] using divRoundEven_mul n Nat.one_pos
      · -- `2 ^ 53` is the mantissa `2 ^ 52` at exponent 1
        have hn53 : n = 2 ^ 53 := by rw [he53] at hlo; omega
        refine ⟨2 ^ 52, ?_, by rw [he53, hn53]; rfl, le_refl _, by decide⟩
        rw [if_pos (by omega), he53, hn53]
        decide
  refine ⟨q, hqe, hq1, hq2, ?_⟩
  unfold nearestBits
  rw [log2Floor_one h0]
  simp only [show (n == 0 || 1 == 0) = false by simp; omega, Bool.false_eq_true, if_false,
    show ¬((n.log2 : Int) > 1023) by omega, show ¬((n.log2 : Int) < -1022) by omega, hq]
  have hinf : infinityBits.toNat = 2047 * 2 ^ 52 := rfl
  rw [if_neg (by rw [hinf]; simp only [Nat.pow_eq]; omega)]
  simp only [Nat.pow_eq, show ((n.log2 : Int) + 1022).toNat = n.log2 + 1022 by omega]
  rw [Nat.toUInt64, UInt64.toNat_ofNat_of_lt' (by simp only [UInt64.size]; omega)]

theorem decode_nan_fields {bits : UInt64} (h : decode bits = .nan) :
    bits.toNat / 2 ^ 52 % 2 ^ 11 = 2 ^ 11 - 1 ∧ bits.toNat % 2 ^ 52 ≠ 0 := by
  unfold decode at h
  simp only [exponentField_toNat, fractionField_toNat] at h
  split_ifs at h with h1 h2
  simp_all

end Binary64

open Float.Model in
theorem valid_of_exponent (b : UInt64) (h : b.toNat / 2 ^ 52 % 2 ^ 11 ≠ 2 ^ 11 - 1) :
    Format.binary64.Valid b.toBitVec := by
  constructor
  intro hexp _
  exfalso
  apply h
  have hfield := congrArg BitVec.toNat hexp
  simpa [UnpackedFloat.unpackExponent, Nat.shiftRight_eq_div_pow] using hfield

theorem toBits_ofBits {b : UInt64} (h : b.toNat / 2 ^ 52 % 2 ^ 11 ≠ 2 ^ 11 - 1) :
    (Float.ofBits b).toBits = b := by
  show UInt64.ofBitVec (Float.Model.UnpackedFloat.pack Float.Model.Format.binary64
    (Float.Model.UnpackedFloat.unpack Float.Model.Format.binary64 b.toBitVec)) = b
  rw [Float.Model.UnpackedFloat.pack_unpack_of_valid (valid_of_exponent b h)]

open Float.Model in
/-- Every value that decodes as a NaN is the one NaN of the logical model of `Float`. -/
theorem eq_nan_of_decode {x : Float} (h : Binary64.decode x.toBits = .nan) : x = 0.0 / 0.0 := by
  obtain ⟨hexp, hfrac⟩ := Binary64.decode_nan_fields h
  -- a valid word with an all-ones exponent and a nonzero fraction is the canonical NaN
  have hbits : x.toModel.toBits.toBitVec = UnpackedFloat.packedNaN Format.binary64 := by
    apply x.toModel.valid.eq_packedNaN
    · apply BitVec.eq_of_toNat_eq
      simp [UnpackedFloat.unpackExponent, Nat.shiftRight_eq_div_pow]
      exact hexp
    · intro h0
      have := congrArg BitVec.toNat h0
      simp [UnpackedFloat.unpackMantissa] at this
      exact hfrac this
  have hnan : (0.0 / 0.0 : Float).toModel.toBits.toBitVec = UnpackedFloat.packedNaN Format.binary64 :=
    rfl
  have hinj : ∀ a b : Float, a.toModel.toBits = b.toModel.toBits → a = b := by
    rintro ⟨⟨a, _⟩⟩ ⟨⟨b, _⟩⟩ h
    subst h
    rfl
  exact hinj _ _ (UInt64.toBitVec_inj.mp (hbits.trans hnan.symm))

/-- An integer of at most 53 bits reads back exactly from its nearest binary64 value. -/
theorem truncateWord_nearest {n : Nat} (h0 : 0 < n) (hn : n ≤ 2 ^ 53) (neg : Bool) :
    truncateWord (Binary64.nearest neg n 1) = if neg then -(n : Int) else n := by
  obtain ⟨q, hqe, hq1, hq2, hbits⟩ := Binary64.nearestBits_int h0 hn
  have he := Binary64.log2_le_53 h0 hn
  have hN : (if neg then Binary64.nearestBits n 1 ||| 0x8000000000000000
      else Binary64.nearestBits n 1).toNat =
      (if neg then 2 ^ 63 else 0) + ((n.log2 + 1022) * 2 ^ 52 + q) := by
    cases neg
    · simp [hbits]
    · rw [if_pos rfl, UInt64.toNat_or, hbits,
        show (0x8000000000000000 : UInt64).toNat = 2 ^ 63 from rfl,
        Nat.or_two_pow_eq_add_of_lt (by omega)]
      simp only [if_true]
      omega
  generalize hW : (if neg then Binary64.nearestBits n 1 ||| 0x8000000000000000
    else Binary64.nearestBits n 1) = W at hN
  -- the fields of the word: sign, biased exponent and the mantissa without its leading bit
  have hfield : W.toNat / 2 ^ 52 % 2 ^ 11 = n.log2 + 1023 := by
    rw [hN]
    cases neg <;> simp only [Bool.false_eq_true, if_true, if_false] <;> omega
  have hsign : (W.toNat / 2 ^ 63 == 1) = neg := by
    rw [hN]
    cases neg <;> simp only [Bool.false_eq_true, if_true, if_false] <;> simp <;> omega
  have hfrac : W.toNat % 2 ^ 52 + 2 ^ 52 = q := by
    rw [hN]
    cases neg <;> simp only [Bool.false_eq_true, if_true, if_false] <;> omega
  unfold truncateWord Binary64.nearest
  dsimp only
  rw [hW, toBits_ofBits (by omega), Binary64.decode_normal (by omega) (by omega), hsign, hfrac,
    hfield]
  -- the mantissa scaled by the exponent is the integer again
  have hmag : (if 0 ≤ ((n.log2 + 1023 : Nat) : Int) - 1075
      then q * Nat.pow 2 (((n.log2 + 1023 : Nat) : Int) - 1075).toNat
      else q / Nat.pow 2 (-(((n.log2 + 1023 : Nat) : Int) - 1075)).toNat) = n := by
    rcases Nat.lt_or_ge n.log2 52 with hlt | hge
    · rw [if_neg (by omega),
        show (-(((n.log2 + 1023 : Nat) : Int) - 1075)).toNat = 52 - n.log2 by omega]
      have hq : q = n * 2 ^ (52 - n.log2) := by
        apply Nat.eq_of_mul_eq_mul_right (Nat.two_pow_pos n.log2)
        rw [hqe, Nat.mul_assoc, ← Nat.pow_add, Nat.sub_add_cancel hlt.le]
      rw [hq, Nat.pow_eq, Nat.mul_div_cancel _ (Nat.two_pow_pos _)]
    · rw [if_pos (by omega), show (((n.log2 + 1023 : Nat) : Int) - 1075).toNat = n.log2 - 52 by omega]
      apply Nat.eq_of_mul_eq_mul_right (Nat.two_pow_pos 52)
      rw [Nat.pow_eq, Nat.mul_assoc, ← Nat.pow_add, Nat.sub_add_cancel hge, hqe]
  dsimp only
  rw [hmag]
  cases neg <;> simp [leastWord] <;> omega

end BitSynth.Decimal
