import Mathlib

/-!
# Integers in a double

A double has 53 significant bits.  A number below `2 ^ 53` is therefore converted without
rounding: its highest bit is shifted to the top of the significand (`ofNat_eq`), packing and
unpacking keep it (`unpack_pack`), and the shift is undone when the double is read
(`toUInt64_toFloat`).
-/

namespace LedgerZcash.Double

open Float.Model Float.Model.UnpackedFloat

/-! ## The significand -/

/-- A number below `2 ^ 53`, shifted until its highest bit has weight `2 ^ 52`. -/
def significand (n : Nat) : Nat := n <<< (52 - n.log2)

variable {n : Nat}

theorem log2_le (h : n < 2 ^ 53) : n.log2 ≤ 52 := by
  rcases Nat.eq_zero_or_pos n with rfl | hpos
  · exact Nat.zero_le _
  · exact Nat.le_of_lt_succ ((Nat.log2_lt hpos.ne').mpr h)

theorem significand_bounds (hpos : 0 < n) (h : n < 2 ^ 53) :
    2 ^ 52 ≤ significand n ∧ significand n < 2 ^ 53 := by
  have hsplit : n.log2 + (52 - n.log2) = 52 := Nat.add_sub_cancel' (log2_le h)
  rw [significand, Nat.shiftLeft_eq]
  constructor
  · calc 2 ^ 52 = 2 ^ n.log2 * 2 ^ (52 - n.log2) := by rw [← pow_add, hsplit]
      _ ≤ n * 2 ^ (52 - n.log2) := Nat.mul_le_mul_right _ (Nat.log2_self_le hpos.ne')
  · calc n * 2 ^ (52 - n.log2) < 2 ^ (n.log2 + 1) * 2 ^ (52 - n.log2) :=
          Nat.mul_lt_mul_of_pos_right Nat.lt_log2_self (Nat.two_pow_pos _)
      _ = 2 ^ 53 := by rw [← pow_add, Nat.add_right_comm, hsplit]

theorem significand_pos (hpos : 0 < n) (h : n < 2 ^ 53) : 0 < significand n :=
  lt_of_lt_of_le (Nat.two_pow_pos 52) (significand_bounds hpos h).1

theorem log2_significand (hpos : 0 < n) (h : n < 2 ^ 53) : (significand n).log2 = 52 :=
  (Nat.log2_eq_iff (significand_pos hpos h).ne').mpr (significand_bounds hpos h)

theorem finite_congr {sign : Sign} {m m' : Nat} {e e' : Int} {hpos : 0 < m} {hpos' : 0 < m'}
    (hm : m = m') (he : e = e') :
    UnpackedFloat.finite sign m e hpos = .finite sign m' e' hpos' := by
  subst hm he
  rfl

/-- The double of a number below `2 ^ 53`, unpacked. -/
def exact (n : Nat) (hpos : 0 < n) (h : n < 2 ^ 53) : UnpackedFloat :=
  .finite .positive (significand n) (n.log2 - 52) (significand_pos hpos h)

/-! ## Conversion -/

theorem targetExponent_eq {m : Nat} {e : Int} (hm : m.log2 + e + 1022 ≥ 0) :
    Format.binary64.targetExponent (totalExponent m e) = m.log2 + e - 52 := by
  simp only [Format.targetExponent, totalExponent, Format.mantissaBits, Format.minExponent]
  omega

/-- An exponent that is already the target keeps the significand. -/
theorem shiftToExponent_self (m : Nat) (e : Int) :
    shiftToExponent m e .exact e = (⟨m, false, false⟩, e) := by
  rw [shiftToExponent, sub_self]
  exact Prod.ext rfl (add_zero e)

/-- A significand of full length is not rounded. -/
theorem roundWithAccuracy_eq {m : Nat} {e : Int} (hpos : 0 < m) (hm : m.log2 = 52)
    (he : e + 1074 ≥ 0) :
    roundWithAccuracy .binary64 .positive m e .exact = .finite .positive m e hpos := by
  have hshift : shiftToTargetExponent .binary64 m e .exact = (⟨m, false, false⟩, e) := by
    rw [shiftToTargetExponent, targetExponent_eq (by omega), hm]
    rw [show ((52 : Nat) : Int) + e - 52 = e by omega, shiftToExponent_self]
  have hrounded : (⟨m, false, false⟩ : ExtendedMantissa).roundedMantissa = m := rfl
  rw [roundWithAccuracy, hshift]
  dsimp only
  rw [hrounded, hshift]
  exact dif_neg hpos.ne'

theorem ofNat_eq (hpos : 0 < n) (h : n < 2 ^ 53) :
    UnpackedFloat.ofNat .binary64 n = exact n hpos h := by
  have hlog := log2_le h
  have hcompare : compare (n : Int) 0 = .gt := compare_gt_iff_gt.mpr (Int.natCast_pos.mpr hpos)
  rw [UnpackedFloat.ofNat, UnpackedFloat.ofInt, UnpackedFloat.normalize.eq_1, hcompare]
  dsimp only
  rw [Int.toNat_natCast, UnpackedFloat.round, targetExponent_eq (by omega), decreaseExponent]
  dsimp only
  have hshift : ((0 : Int) - (n.log2 + 0 - 52)).toNat = 52 - n.log2 := by omega
  rw [hshift]
  exact (roundWithAccuracy_eq (significand_pos hpos h) (log2_significand hpos h)
    (by omega)).trans (finite_congr rfl (by omega))

/-! ## Packing -/

/-- A normal number is unpacked into its components, with the implicit bit in front. -/
theorem unpack_packComponents {spec : Format} {sign : Sign} {exponent : BitVec spec.exponentBits}
    {mantissa : BitVec spec.mantissaBitsWithoutImplicit} (hinf : exponent ≠ -1#_)
    (hzero : exponent ≠ 0#_) :
    UnpackedFloat.unpack spec (packComponents spec sign exponent mantissa) =
      .finite sign (1#1 ++ mantissa).toNat
        (exponent.toNat - (spec.exponentBias + spec.mantissaBitsWithoutImplicit)) (by simp) := by
  simp only [UnpackedFloat.unpack, unpackMantissa_packComponents, unpackExponent_packComponents,
    unpackSign_packComponents, Sign.ofBitVec_toBitVec, if_neg hinf, if_neg hzero]

/-- Packing does not lose anything of such a double. -/
theorem unpack_pack (hpos : 0 < n) (h : n < 2 ^ 53) :
    UnpackedFloat.unpack .binary64 (UnpackedFloat.pack .binary64 (exact n hpos h)) =
      exact n hpos h := by
  have hlog := log2_le h
  have hbiased : ((n.log2 : Int) - 52 + Format.binary64.exponentBias +
      Format.binary64.mantissaBitsWithoutImplicit).toNat = n.log2 + 1023 := by
    simp only [Format.exponentBias]
    omega
  have hpack : UnpackedFloat.pack .binary64 (exact n hpos h) =
      packComponents .binary64 .positive (BitVec.ofNat 11 (n.log2 + 1023))
        (BitVec.ofNat 52 (significand n)) := by
    rw [exact, UnpackedFloat.pack]
    dsimp only
    rw [hbiased, if_neg (by omega), if_pos (by rw [log2_significand hpos h]; rfl)]
  have hexponent : (BitVec.ofNat 11 (n.log2 + 1023)).toNat = n.log2 + 1023 := by
    rw [BitVec.toNat_ofNat]
    omega
  have hinf : BitVec.ofNat 11 (n.log2 + 1023) ≠ -1#11 := by
    intro heq
    have hval := congrArg BitVec.toNat heq
    rw [hexponent] at hval
    have hmax : (-1#11).toNat = 2047 := rfl
    omega
  have hzero : BitVec.ofNat 11 (n.log2 + 1023) ≠ 0#11 := by
    intro heq
    have hval := congrArg BitVec.toNat heq
    rw [hexponent] at hval
    have hmin : (0#11).toNat = 0 := rfl
    omega
  have hmantissa : (1#1 ++ BitVec.ofNat 52 (significand n)).toNat = significand n := by
    have hbounds := significand_bounds hpos h
    rw [BitVec.toNat_append, BitVec.toNat_ofNat, BitVec.toNat_ofNat,
      ← Nat.shiftLeft_add_eq_or_of_lt (Nat.mod_lt _ (Nat.two_pow_pos 52)), Nat.shiftLeft_eq]
    omega
  have hexact : ((BitVec.ofNat 11 (n.log2 + 1023)).toNat : Int) -
      (Format.binary64.exponentBias + Format.binary64.mantissaBitsWithoutImplicit) =
        n.log2 - 52 := by
    rw [hexponent]
    simp only [Format.exponentBias]
    omega
  rw [hpack, unpack_packComponents hinf hzero]
  exact finite_congr hmantissa hexact

/-! ## Reading -/

theorem mantissa_shiftRight (em : ExtendedMantissa) (k : Nat) :
    (em >>> k).mantissa = em.mantissa / 2 ^ k := by
  induction k with
  | zero => exact (Nat.div_one _).symm
  | succ k ih =>
      have hstep : (em >>> (k + 1)).mantissa = (em >>> k).mantissa / 2 := rfl
      rw [hstep, ih, Nat.div_div_eq_div_mul, ← pow_succ]

theorem toInt_exact (hpos : 0 < n) (h : n < 2 ^ 53) (lo hi : Int) :
    (exact n hpos h).toInt lo hi = n := by
  have hlog := log2_le h
  have hdecrease : ((n.log2 : Int) - 52 - 0).toNat = 0 := by omega
  have hincrease : ((0 : Int) - (n.log2 - 52)).toNat = 52 - n.log2 := by omega
  have hshift : significand n / 2 ^ (52 - n.log2) = n := by
    rw [significand, Nat.shiftLeft_eq, Nat.mul_div_cancel _ (Nat.two_pow_pos _)]
  rw [exact, UnpackedFloat.toInt, roundToInt, decreaseExponent, hdecrease]
  dsimp only
  rw [Nat.shiftLeft_zero, Nat.cast_zero, sub_zero, shiftToExponent, hincrease]
  exact congrArg Int.ofNat ((mantissa_shiftRight _ _).trans hshift)

/-- A number below `2 ^ 53` reads back from its double. -/
theorem toUInt64_toFloat {a : UInt64} (h : a.toNat < 2 ^ 53) : a.toFloat.toUInt64 = a := by
  have hread : ((Float.Model.ofUInt64 a).unpack.toInt 0 (UInt64.size - 1)) = a.toNat := by
    have hbits : (Float.Model.ofUInt64 a).unpack =
        UnpackedFloat.unpack .binary64 (UnpackedFloat.pack .binary64 (.ofNat .binary64 a.toNat)) :=
      rfl
    rw [hbits]
    rcases Nat.eq_zero_or_pos a.toNat with hzero | hpos
    · rw [hzero]
      rfl
    · rw [ofNat_eq hpos h, unpack_pack hpos h, toInt_exact hpos h]
  have hclamp : UInt64.ofNatClamp a.toNat = a := by
    rw [UInt64.ofNatClamp, dif_pos a.toNat_lt]
    exact UInt64.toNat_inj.mp rfl
  exact (congrArg (fun i : Int ↦ UInt64.ofNatClamp i.toNat) hread).trans hclamp

/-- The bound is sharp: the next odd number is rounded. -/
example : (2 ^ 53 + 1 : UInt64).toFloat = (2 ^ 53 : UInt64).toFloat := by decide +kernel

end LedgerZcash.Double
