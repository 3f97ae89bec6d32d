import Cjson.Proofs.Numeral

namespace Cjson

namespace Number

/-- With room for all of them, no zero is left at the end. -/
theorem dropZeros_mod_ten {limit n : Nat} (hn : n ≠ 0) (hlimit : n ≤ limit) :
    (dropZeros limit n).1 % 10 ≠ 0 := by
  induction limit generalizing n with
  | zero => omega
  | succ limit ih =>
    unfold dropZeros
    by_cases hzero : n % 10 = 0
    · rw [if_pos hzero]
      exact ih (by omega) (by omega)
    · rwa [if_neg hzero]

theorem fits64_toInt (n : Int64) : fits64 n.toInt = true := by
  have hlow := n.le_toInt
  have hhigh := n.toInt_lt
  simp only [fits64, Bool.and_eq_true, decide_eq_true_eq]
  omega

end Number

namespace BigDecimal

variable {a b d : BigDecimal}

/-- The only number in this form whose mantissa ends with a zero is zero itself. -/
def Reduced (d : BigDecimal) : Prop :=
  10 ∣ d.mantissa → d = ⟨0, 0⟩

theorem reduced_reduce (d : BigDecimal) : d.reduce.Reduced := by
  unfold reduce
  by_cases hzero : d.mantissa = 0
  · rw [if_pos hzero]
    exact fun _ => rfl
  · rw [if_neg hzero]
    intro hdvd
    have hrest := Number.dropZeros_mod_ten (Int.natAbs_ne_zero.mpr hzero) (Nat.le_refl _)
    have hten := Int.natAbs_dvd_natAbs.mpr hdvd
    rw [Int.natAbs_mul, Int.natAbs_sign_of_ne_zero hzero, Nat.one_mul, Int.natAbs_natCast] at hten
    exact absurd (Nat.mod_eq_zero_of_dvd hten) hrest

/-- What zeros are taken off is given back by the scale. -/
theorem toRat_reduce (d : BigDecimal) : d.reduce.toRat = d.toRat := by
  unfold reduce
  by_cases hzero : d.mantissa = 0
  · rw [if_pos hzero]
    simp [toRat, hzero]
  · rw [if_neg hzero]
    have hdrop := Number.dropZeros_eq d.mantissa.natAbs d.mantissa.natAbs
    generalize Number.dropZeros d.mantissa.natAbs d.mantissa.natAbs = r at hdrop ⊢
    obtain ⟨rest, count⟩ := r
    dsimp only at hdrop ⊢
    have hmantissa : (d.mantissa : ℚ) = d.mantissa.sign * rest * 10 ^ count := by
      conv_lhs => rw [← Int.sign_mul_natAbs d.mantissa, ← hdrop]
      push_cast
      rw [Numeral.cast_tenTo]
      ring
    have hscale : -(d.scale - count) = count + -d.scale := by omega
    rw [toRat, toRat, hscale, zpow_add₀ Numeral.ten_ne_zero, zpow_natCast, hmantissa]
    push_cast
    ring

/-- Of two numbers with one value, the one with the greater scale has more zeros. -/
theorem mantissa_eq (h : a.toRat = b.toRat) (hle : a.scale ≤ b.scale) :
    b.mantissa = a.mantissa * 10 ^ (b.scale - a.scale).toNat := by
  have hpow : (10 : ℚ) ^ b.scale ≠ 0 := zpow_ne_zero _ Numeral.ten_ne_zero
  have hshift : (10 : ℚ) ^ (-a.scale) * 10 ^ b.scale = 10 ^ (b.scale - a.scale).toNat := by
    rw [← zpow_add₀ Numeral.ten_ne_zero, ← zpow_natCast]
    congr 1
    omega
  have hcast : (b.mantissa : ℚ) = a.mantissa * 10 ^ (b.scale - a.scale).toNat :=
    calc (b.mantissa : ℚ) = b.toRat * 10 ^ b.scale := by
          rw [toRat, zpow_neg, mul_assoc, inv_mul_cancel₀ hpow, mul_one]
      _ = a.mantissa * (10 ^ (-a.scale) * 10 ^ b.scale) := by rw [← h, toRat, mul_assoc]
      _ = a.mantissa * 10 ^ (b.scale - a.scale).toNat := by rw [hshift]
  exact_mod_cast hcast

/-- The scale of a reduced number is the least one for its value, but zero has no least. -/
theorem Reduced.scale_le_or (hb : b.Reduced) (h : a.toRat = b.toRat) :
    b.scale ≤ a.scale ∨ b = ⟨0, 0⟩ := by
  by_cases hle : b.scale ≤ a.scale
  · exact .inl hle
  · have hmantissa := mantissa_eq h (by omega)
    obtain ⟨k, hk⟩ : ∃ k, (b.scale - a.scale).toNat = k + 1 :=
      ⟨(b.scale - a.scale).toNat - 1, by omega⟩
    rw [hk, pow_succ, ← mul_assoc] at hmantissa
    exact .inr (hb ⟨_, hmantissa.trans (mul_comm _ _)⟩)

theorem Reduced.eq_zero (ha : a.Reduced) (h : a.toRat = 0) : a = ⟨0, 0⟩ := by
  have hpow : (10 : ℚ) ^ (-a.scale) ≠ 0 := zpow_ne_zero _ Numeral.ten_ne_zero
  have hmantissa : a.mantissa = 0 := by
    exact_mod_cast (mul_eq_zero.mp h).resolve_right hpow
  exact ha (hmantissa ▸ dvd_zero 10)

theorem Reduced.eq_of_toRat_eq (ha : a.Reduced) (hb : b.Reduced) (h : a.toRat = b.toRat) :
    a = b := by
  rcases ha.scale_le_or h.symm with hscale | rfl
  · rcases hb.scale_le_or h with hscale' | rfl
    · have heq : a.scale = b.scale := le_antisymm hscale hscale'
      have hmantissa := mantissa_eq h heq.le
      rw [heq, Int.sub_self, Int.toNat_zero, pow_zero, mul_one] at hmantissa
      cases a
      cases b
      simp_all
    · exact ha.eq_zero (by simpa [toRat] using h)
  · exact (hb.eq_zero (by simpa [toRat] using h.symm)).symm

/-- Numbers are equal if their values are. -/
theorem same_iff : a.same b = true ↔ a.toRat = b.toRat := by
  rw [same, decide_eq_true_iff]
  constructor
  · intro h
    rw [← toRat_reduce a, h, toRat_reduce]
  · intro h
    exact (reduced_reduce a).eq_of_toRat_eq (reduced_reduce b) (by rwa [toRat_reduce, toRat_reduce])

/-- An integer as a number without fraction digits. -/
def ofInt (n : Int) : BigDecimal :=
  ⟨n, 0⟩

@[simp] theorem toRat_ofInt (n : Int) : (ofInt n).toRat = n := by
  simp [ofInt, toRat]

/-- A reduced number with fraction digits is no integer. -/
theorem Reduced.scale_nonpos (hd : d.Reduced) {n : Int} (h : d.toRat = n) : d.scale ≤ 0 := by
  rcases hd.scale_le_or ((toRat_ofInt n).trans h.symm) with hle | rfl
  · exact hle
  · exact Int.le_refl 0

/-- Without fraction digits the value is the mantissa with zeros behind it. -/
theorem toRat_of_scale_nonpos (h : d.scale ≤ 0) :
    d.toRat = ((d.mantissa * Number.tenTo (-d.scale).toNat : ℤ) : ℚ) := by
  push_cast
  rw [Numeral.cast_tenTo, toRat, ← zpow_natCast]
  congr 2
  omega

/-- With more than 18 zeros behind it, no reduced integer but zero is within 64 bits. -/
theorem Reduced.le_scale (hd : d.Reduced) {n : Int} (h : d.toRat = n)
    (hn : Number.fits64 n = true) : -18 ≤ d.scale := by
  by_contra hlow
  have hmantissa : n = d.mantissa * 10 ^ (0 - d.scale).toNat :=
    mantissa_eq (b := ofInt n) (h.trans (toRat_ofInt n).symm) (hd.scale_nonpos h)
  have hne : d.mantissa ≠ 0 := by
    intro hzero
    rw [hd (hzero ▸ dvd_zero 10)] at hlow
    exact hlow (by decide)
  -- 19 zeros are one more than there is room for
  have hpow : 10 ^ 19 ≤ 10 ^ (0 - d.scale).toNat :=
    Nat.pow_le_pow_right (by decide) (by omega)
  have hlarge : 10 ^ 19 ≤ n.natAbs := by
    rw [hmantissa, Int.natAbs_mul, Int.natAbs_pow]
    exact hpow.trans (Nat.le_mul_of_pos_left _ (Int.natAbs_pos.mpr hne))
  simp only [Number.fits64, Bool.and_eq_true, decide_eq_true_eq] at hn
  omega

/-- A number is taken for a 64-bit integer exactly if that is its value. -/
theorem toInt64?_eq_some_iff {n : Int64} : d.toInt64? = some n ↔ d.toRat = (n.toInt : ℚ) := by
  have hd := reduced_reduce d
  have hfits := Number.fits64_toInt n
  rw [← toRat_reduce d]
  unfold toInt64?
  generalize d.reduce = r at hd
  dsimp only
  by_cases hrange : 0 < r.scale ∨ r.scale < -18
  · rw [if_pos hrange]
    simp only [reduceCtorEq, false_iff]
    intro h
    have hhigh := hd.scale_nonpos h
    have hlow := hd.le_scale h hfits
    omega
  · rw [if_neg hrange, toRat_of_scale_nonpos (by omega), Int.cast_inj]
    generalize r.mantissa * (Number.tenTo (-r.scale).toNat : ℤ) = m
    constructor
    · intro h
      obtain ⟨hm, hn⟩ := Option.ite_none_right_eq_some.mp h
      rw [← Option.some.inj hn]
      simp only [Number.fits64, Bool.and_eq_true, decide_eq_true_eq] at hm
      exact (Int64.toInt_ofInt_of_le (by omega) (by omega)).symm
    · rintro rfl
      rw [if_pos hfits, Int64.ofInt_toInt]

/-- Whether a number is an integer does not depend on how it is written. -/
theorem toInt64?_congr (h : a.toRat = b.toRat) : a.toInt64? = b.toInt64? :=
  Option.ext fun _ => toInt64?_eq_some_iff.trans (h ▸ toInt64?_eq_some_iff.symm)

end BigDecimal
end Cjson
