import PioBlock.Proofs.Binary32.Packing

/-! Where floating-point arithmetic does not round. A number with at most 24 significant bits is its
own rounding, so an operation whose exact result is such a number gives that result. -/

namespace PioBlock.Binary32

open Float.Model Float.Model.UnpackedFloat

theorem log2_le {m : ℕ} (lt : m < 2 ^ 24) : m.log2 ≤ 23 := by
  by_cases zero : m = 0
  · rw [zero]
    decide
  · exact Nat.le_of_lt_succ ((Nat.log2_lt zero).mpr lt)

theorem log2_mul_two_pow {m : ℕ} (ne : m ≠ 0) (j : ℕ) : (m * 2 ^ j).log2 = m.log2 + j := by
  rw [Nat.log2_eq_iff (by positivity), Nat.add_right_comm, pow_add, pow_add]
  exact ⟨Nat.mul_le_mul_right _ (Nat.log2_self_le ne),
    Nat.mul_lt_mul_of_pos_right Nat.lt_log2_self (Nat.two_pow_pos j)⟩

theorem targetExponent_eq (t : ℤ) :
    Format.binary32.targetExponent t = max (t - 24) (-149) := by
  simp only [Format.targetExponent, Format.mantissaBits, Format.minExponent]
  norm_num

theorem mantissa_shiftRight (x : ExtendedMantissa) (j : ℕ) :
    (x >>> j).mantissa = x.mantissa / 2 ^ j := by
  induction j generalizing x with
  | zero => rw [pow_zero, Nat.div_one]; rfl
  | succ j ih =>
    change (x >>> j).mantissa / 2 = x.mantissa / 2 ^ (j + 1)
    rw [ih, Nat.div_div_eq_div_mul, pow_succ]

theorem shiftRight_exact (m j : ℕ) :
    (ExtendedMantissa.ofMantissaAndAccuracy (m * 2 ^ j) .exact >>> j) =
      ExtendedMantissa.ofMantissaAndAccuracy m .exact := by
  induction j generalizing m with
  | zero => rw [pow_zero, mul_one]; rfl
  | succ j ih =>
    change ExtendedMantissa.shiftRightOne
      (ExtendedMantissa.ofMantissaAndAccuracy (m * 2 ^ (j + 1)) .exact >>> j) = _
    rw [pow_succ', ← mul_assoc, ih]
    simp [ExtendedMantissa.shiftRightOne, ExtendedMantissa.ofMantissaAndAccuracy]

theorem shiftToTargetExponent_exact {m : ℕ} {e : ℤ} (normal : IsNormal m e) (j : ℕ) :
    shiftToTargetExponent .binary32 (m * 2 ^ j) (e - j) .exact =
      (.ofMantissaAndAccuracy m .exact, e) := by
  have ge := normal.ge
  have target : Format.binary32.targetExponent (totalExponent (m * 2 ^ j) (e - j)) = e := by
    rw [targetExponent_eq, totalExponent, log2_mul_two_pow normal.pos.ne', normal.log2_eq]
    push_cast
    omega
  have shift : (e - (e - j)).toNat = j := by omega
  simp only [shiftToTargetExponent, shiftToExponent, target, shift, shiftRight_exact,
    Int.sub_add_cancel]

theorem roundWithAccuracy_exact {m : ℕ} {e : ℤ} (normal : IsNormal m e) (s : Sign) (j : ℕ) :
    roundWithAccuracy .binary32 s (m * 2 ^ j) (e - j) .exact = .finite s m e normal.pos := by
  have rounded : (ExtendedMantissa.ofMantissaAndAccuracy m .exact).roundedMantissa = m := rfl
  have again := shiftToTargetExponent_exact normal 0
  rw [pow_zero, mul_one, Nat.cast_zero, sub_zero] at again
  simp only [roundWithAccuracy, shiftToTargetExponent_exact normal j, rounded, again]
  exact dif_neg normal.pos.ne'

/-- The number `m * 2 ^ e`, where `m` has at most 24 bits, with its significand shifted up to
24 bits. -/
def dyadic (m : ℕ) (e : ℤ) : UnpackedFloat :=
  if zero : m = 0 then .zero .positive
  else .finite .positive (m * 2 ^ (23 - m.log2)) (e - (23 - m.log2 : ℕ))
    (Nat.mul_pos (Nat.pos_of_ne_zero zero) (Nat.two_pow_pos _))

theorem dyadic_zero (e : ℤ) : dyadic 0 e = .zero .positive := dif_pos rfl

theorem dyadic_of_ne {m : ℕ} (ne : m ≠ 0) (e : ℤ) : dyadic m e =
    .finite .positive (m * 2 ^ (23 - m.log2)) (e - (23 - m.log2 : ℕ))
      (Nat.mul_pos (Nat.pos_of_ne_zero ne) (Nat.two_pow_pos _)) := dif_neg ne

theorem dyadic_of_isNormal {m : ℕ} {e : ℤ} (normal : IsNormal m e) :
    dyadic m e = .finite .positive m e normal.pos := by
  simp [dyadic, normal.pos.ne', normal.log2_eq]

theorem dyadic_mul_two_pow {m j : ℕ} (e : ℤ) (lt : m * 2 ^ j < 2 ^ 24) :
    dyadic (m * 2 ^ j) e = dyadic m (e + j) := by
  by_cases zero : m = 0
  · rw [zero, zero_mul, dyadic_zero, dyadic_zero]
  · have top := log2_le lt
    rw [dyadic_of_ne (by positivity), dyadic_of_ne zero]
    rw [log2_mul_two_pow zero] at top
    congr 1
    · rw [log2_mul_two_pow zero, mul_assoc, ← pow_add]
      congr 2
      omega
    · rw [log2_mul_two_pow zero]
      omega

structure InReach (m : ℕ) (e : ℤ) : Prop where
  lt : m < 2 ^ 24
  ge : -126 ≤ e
  le : e ≤ 104

theorem InReach.isNormal {m : ℕ} {e : ℤ} (reach : InReach m e) (ne : m ≠ 0) :
    IsNormal (m * 2 ^ (23 - m.log2)) (e - (23 - m.log2 : ℕ)) := by
  obtain ⟨lt, ge, le⟩ := reach
  have top := log2_le lt
  have low : 2 ^ 23 = 2 ^ m.log2 * 2 ^ (23 - m.log2) := by
    rw [← pow_add]
    congr 1
    omega
  have high : 2 ^ 24 = 2 ^ (m.log2 + 1) * 2 ^ (23 - m.log2) := by
    rw [← pow_add]
    congr 1
    omega
  refine ⟨?_, ?_, by omega, by omega⟩
  · rw [low]
    exact Nat.mul_le_mul_right _ (Nat.log2_self_le ne)
  · rw [high]
    exact Nat.mul_lt_mul_of_pos_right Nat.lt_log2_self (Nat.two_pow_pos _)

theorem unpack_pack_dyadic {m : ℕ} {e : ℤ} (reach : InReach m e) :
    UnpackedFloat.unpack .binary32 (UnpackedFloat.pack .binary32 (dyadic m e)) = dyadic m e := by
  by_cases zero : m = 0
  · rw [zero, dyadic_zero]
    rfl
  · rw [dyadic_of_ne zero]
    exact unpack_pack_normal (reach.isNormal zero) .positive

/-- A number with at most 24 significant bits is its own rounding, however it is written. -/
theorem normalize_exact {m : ℕ} {e : ℤ} (reach : InReach m e) (j : ℕ) :
    UnpackedFloat.normalize .binary32 ((m * 2 ^ j : ℕ) : ℤ) (e - j) .positive = dyadic m e := by
  by_cases zero : m = 0
  · rw [zero, zero_mul, dyadic_zero]
    rfl
  · have top := log2_le reach.lt
    have ge := reach.ge
    have positive : compare ((m * 2 ^ j : ℕ) : ℤ) 0 = .gt :=
      Int.compare_eq_gt.mpr (by positivity)
    have target : Format.binary32.targetExponent (totalExponent (m * 2 ^ j) (e - j)) =
        e - (23 - m.log2 : ℕ) := by
      rw [targetExponent_eq, totalExponent, log2_mul_two_pow zero]
      push_cast
      omega
    have shifted : m * 2 ^ j * 2 ^ (e - j - (e - (23 - m.log2 : ℕ))).toNat =
        m * 2 ^ (23 - m.log2) * 2 ^ (m.log2 + j - 23) := by
      rw [mul_assoc, mul_assoc, ← pow_add, ← pow_add]
      congr 2
      omega
    rw [UnpackedFloat.normalize, positive, dyadic_of_ne zero,
      ← roundWithAccuracy_exact (reach.isNormal zero) .positive (m.log2 + j - 23)]
    simp only [UnpackedFloat.round, Int.toNat_natCast, target, decreaseExponent,
      Nat.shiftLeft_eq, shifted]
    congr 1
    omega

theorem decreaseExponent_aligned {j k : ℕ} (m : ℕ) (e : ℤ) (le : j ≤ k) :
    decreaseExponent (m * 2 ^ j) (e - j) (e - k) = (m * 2 ^ k, e - k) := by
  have shift : (e - j - (e - k)).toNat = k - j := by omega
  rw [decreaseExponent, shift, Nat.shiftLeft_eq, mul_assoc, ← pow_add, Nat.add_sub_cancel' le]
  congr 1
  omega

section Aligned

variable {m n i j : ℕ} {e : ℤ} (hm : 0 < m * 2 ^ i) (hn : 0 < n * 2 ^ j)

theorem sub_finite : UnpackedFloat.sub .binary32 (.finite .positive (m * 2 ^ i) (e - i) hm)
      (.finite .positive (n * 2 ^ j) (e - j) hn) =
    UnpackedFloat.normalize .binary32 ((m * 2 ^ max i j : ℕ) - (n * 2 ^ max i j : ℕ) : ℤ)
      (e - (max i j : ℕ)) .positive := by
  have smaller : min (e - i) (e - j) = e - (max i j : ℕ) := by omega
  simp only [UnpackedFloat.sub, smaller, decreaseExponent_aligned _ _ (le_max_left i j),
    decreaseExponent_aligned _ _ (le_max_right i j)]
  rfl

theorem add_finite : UnpackedFloat.add .binary32 (.finite .positive (m * 2 ^ i) (e - i) hm)
      (.finite .positive (n * 2 ^ j) (e - j) hn) =
    UnpackedFloat.normalize .binary32 ((m * 2 ^ max i j : ℕ) + (n * 2 ^ max i j : ℕ) : ℤ)
      (e - (max i j : ℕ)) .positive := by
  have smaller : min (e - i) (e - j) = e - (max i j : ℕ) := by omega
  simp only [UnpackedFloat.add, smaller, decreaseExponent_aligned _ _ (le_max_left i j),
    decreaseExponent_aligned _ _ (le_max_right i j)]
  rfl

end Aligned

theorem divCore_two_pow {m k : ℕ} {e : ℤ} (normal : IsNormal m e) (ge : -148 ≤ e - k) :
    divCore .binary32 m e (2 ^ 23) (k - 23) = (m * 2 ^ 1, e - k - (1 : ℕ), .exact) := by
  have total : totalExponent m e - totalExponent (2 ^ 23) (k - 23) = e - k + 23 := by
    rw [totalExponent, totalExponent, normal.log2_eq, Nat.log2_two_pow]
    push_cast
    ring
  have target : min (e - (k - 23)) (max (e - k + 23 - 24) (-149)) = e - k - (1 : ℕ) := by
    push_cast
    omega
  have shift : (e - (k - 23) - (e - k - (1 : ℕ))).toNat = 24 := by omega
  have split : m * 2 ^ 24 = m * 2 ^ 1 * 2 ^ 23 := by rw [mul_assoc, ← pow_add]
  have pos : 0 < 2 ^ 23 := Nat.two_pow_pos 23
  simp only [divCore, total, targetExponent_eq, target, shift, Nat.shiftLeft_eq]
  rw [split, Nat.mul_div_cancel _ pos, Nat.mul_mod_left]
  rfl

/-- The float is the number `m * 2 ^ e`. -/
structure Represents (x : Float32) (m : ℕ) (e : ℤ) : Prop where
  reach : InReach m e
  unpack_eq : x.toModel.unpack = dyadic m e

theorem represents_of_pack {x : Float32} {u : UnpackedFloat} {m : ℕ} {e : ℤ}
    (packed : x = ⟨.pack u⟩) (reach : InReach m e) (same : u = dyadic m e) :
    Represents x m e := by
  refine ⟨reach, ?_⟩
  rw [packed, same]
  exact unpack_pack_dyadic reach

theorem represents_ofNat {x : Float32} {n : ℕ} (packed : x = ⟨.pack (.ofNat .binary32 n)⟩)
    (lt : n < 2 ^ 24) : Represents x n 0 := by
  refine represents_of_pack packed ⟨lt, by decide, by decide⟩ ?_
  have rounded := normalize_exact (m := n) (e := 0) ⟨lt, by decide, by decide⟩ 0
  rwa [pow_zero, mul_one, Nat.cast_zero, sub_zero] at rounded

theorem represents_ofUInt16 (n : UInt16) : Represents n.toFloat32 n.toNat 0 :=
  represents_ofNat rfl (lt_trans n.toNat_lt (by decide))

theorem represents_ofUInt8 (n : UInt8) : Represents n.toFloat32 n.toNat 0 :=
  represents_ofNat rfl (lt_trans n.toNat_lt (by decide))

namespace Represents

variable {x y : Float32} {m n : ℕ} {e : ℤ}

theorem scale (hx : Represents x m e) {j : ℕ} (lt : m * 2 ^ j < 2 ^ 24) (ge : -126 ≤ e - j) :
    Represents x (m * 2 ^ j) (e - j) := by
  have le := hx.reach.le
  refine ⟨⟨lt, ge, by omega⟩, ?_⟩
  rw [dyadic_mul_two_pow _ lt, Int.sub_add_cancel]
  exact hx.unpack_eq

theorem sub (hx : Represents x m e) (hy : Represents y n e) (le : n ≤ m) :
    Represents (x - y) (m - n) e := by
  have reach : InReach (m - n) e := ⟨by have := hx.reach.lt; omega, hx.reach.ge, hx.reach.le⟩
  refine represents_of_pack (u := .sub .binary32 x.toModel.unpack y.toModel.unpack) rfl reach ?_
  rw [hx.unpack_eq, hy.unpack_eq]
  by_cases hn : n = 0
  · rw [hn, Nat.sub_zero, dyadic_zero]
    by_cases hm : m = 0
    · rw [hm, dyadic_zero]
      rfl
    · rw [dyadic_of_ne hm]
      rfl
  · have hm : m ≠ 0 := by omega
    rw [dyadic_of_ne hm, dyadic_of_ne hn, sub_finite,
      ← normalize_exact reach (max (23 - m.log2) (23 - n.log2))]
    congr 1
    push_cast [Nat.cast_sub le]
    ring

theorem add (hx : Represents x m e) (hy : Represents y n e) (lt : m + n < 2 ^ 24) :
    Represents (x + y) (m + n) e := by
  have reach : InReach (m + n) e := ⟨lt, hx.reach.ge, hx.reach.le⟩
  refine represents_of_pack (u := .add .binary32 x.toModel.unpack y.toModel.unpack) rfl reach ?_
  rw [hx.unpack_eq, hy.unpack_eq]
  by_cases hm : m = 0
  · rw [hm, Nat.zero_add, dyadic_zero]
    by_cases hn : n = 0
    · rw [hn, dyadic_zero]
      rfl
    · rw [dyadic_of_ne hn]
      rfl
  · by_cases hn : n = 0
    · rw [hn, Nat.add_zero, dyadic_zero, dyadic_of_ne hm]
      rfl
    · rw [dyadic_of_ne hm, dyadic_of_ne hn, add_finite,
        ← normalize_exact reach (max (23 - m.log2) (23 - n.log2))]
      congr 1
      push_cast
      ring

theorem mul_two_pow (hx : Represents x m e) {k : ℕ}
    (power : y.toModel.unpack = .finite .positive (2 ^ 23) (k - 23) (by decide))
    (le : e + k ≤ 104) : Represents (x * y) m (e + k) := by
  have reach : InReach m (e + k) := ⟨hx.reach.lt, by have := hx.reach.ge; omega, le⟩
  refine represents_of_pack (u := .mul .binary32 x.toModel.unpack y.toModel.unpack) rfl reach ?_
  rw [hx.unpack_eq, power]
  by_cases zero : m = 0
  · rw [zero, dyadic_zero, dyadic_zero]
    rfl
  · rw [dyadic_of_ne zero, dyadic_of_ne zero]
    rw [← roundWithAccuracy_exact (reach.isNormal zero) .positive 23]
    change roundWithAccuracy .binary32 .positive _ _ _ = _
    congr 1
    push_cast
    ring

theorem div_two_pow (hx : Represents x m e) {k : ℕ}
    (power : y.toModel.unpack = .finite .positive (2 ^ 23) (k - 23) (by decide))
    (ge : -125 ≤ e - k) : Represents (x / y) m (e - k) := by
  have reach : InReach m (e - k) := ⟨hx.reach.lt, by omega, by have := hx.reach.le; omega⟩
  refine represents_of_pack (u := .div .binary32 x.toModel.unpack y.toModel.unpack) rfl reach ?_
  rw [hx.unpack_eq, power]
  by_cases zero : m = 0
  · rw [zero, dyadic_zero, dyadic_zero]
    rfl
  · have top := log2_le hx.reach.lt
    rw [dyadic_of_ne zero, dyadic_of_ne zero, ← roundWithAccuracy_exact (reach.isNormal zero) _ 1]
    simp only [UnpackedFloat.div, divCore_two_pow (hx.reach.isNormal zero) (k := k) (by omega)]
    congr 1
    ring

theorem toInt_eq {j : ℕ} (hx : Represents x m (-j)) (low high : ℤ) :
    UnpackedFloat.toInt low high x.toModel.unpack = (m / 2 ^ j : ℕ) := by
  rw [hx.unpack_eq]
  by_cases zero : m = 0
  · rw [zero, dyadic_zero, Nat.zero_div]
    rfl
  · have none : (-(j : ℤ) - (23 - m.log2 : ℕ) - 0).toNat = 0 := by omega
    have shift : (0 - (-(j : ℤ) - (23 - m.log2 : ℕ) - (0 : ℕ))).toNat = j + (23 - m.log2) := by
      omega
    rw [dyadic_of_ne zero]
    simp only [UnpackedFloat.toInt, roundToInt, decreaseExponent, none, Nat.shiftLeft_zero,
      shiftToExponent, shift, mantissa_shiftRight]
    change ((m * 2 ^ (23 - m.log2) / 2 ^ (j + (23 - m.log2)) : ℕ) : ℤ) = _
    rw [pow_add, Nat.mul_div_mul_right _ _ (Nat.two_pow_pos _)]

theorem toUInt16_eq {j : ℕ} (hx : Represents x m (-j)) (lt : m / 2 ^ j < 65536) :
    x.toUInt16.toNat = m / 2 ^ j := by
  change (UInt16.ofNatClamp (UnpackedFloat.toInt _ _ x.toModel.unpack).toNat).toNat = _
  rw [hx.toInt_eq, Int.toNat_natCast, UInt16.ofNatClamp, dif_pos lt]
  rfl

theorem toUInt8_eq {j : ℕ} (hx : Represents x m (-j)) (lt : m / 2 ^ j < 256) :
    x.toUInt8.toNat = m / 2 ^ j := by
  change (UInt8.ofNatClamp (UnpackedFloat.toInt _ _ x.toModel.unpack).toNat).toNat = _
  rw [hx.toInt_eq, Int.toNat_natCast, UInt8.ofNatClamp, dif_pos lt]
  rfl

end Represents

end PioBlock.Binary32
