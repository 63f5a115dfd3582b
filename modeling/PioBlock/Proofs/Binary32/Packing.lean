import PioBlock.Binary32
import Mathlib

/-! What bit patterns compute as. Three fields spell a number: its sign, its exponent and its
fraction. A number that is packed into a pattern is found there again, so every pattern computes as
the number that its fields spell, and to compare it with a power of two is to compare exponents. -/

namespace PioBlock.Binary32

open Float.Model Float.Model.UnpackedFloat

structure IsNormal (m : ℕ) (e : ℤ) : Prop where
  low : 2 ^ 23 ≤ m
  high : m < 2 ^ 24
  ge : -149 ≤ e
  le : e ≤ 104

theorem IsNormal.pos {m : ℕ} {e : ℤ} (normal : IsNormal m e) : 0 < m :=
  lt_of_lt_of_le (Nat.two_pow_pos 23) normal.low

theorem IsNormal.log2_eq {m : ℕ} {e : ℤ} (normal : IsNormal m e) : m.log2 = 23 :=
  (Nat.log2_eq_iff normal.pos.ne').mpr ⟨normal.low, normal.high⟩

def ofFields (s : Sign) (exponent : BitVec 8) (fraction : BitVec 23) : UnpackedFloat :=
  if exponent = -1#8 then if fraction = 0#23 then .infinity s else .notANumber
  else if exponent = 0#8 then
    if h : fraction = 0#23 then .zero s
    else .finite s fraction.toNat (exponent.toNat - 150 + 1)
      (Nat.pos_of_ne_zero fun zero => h (BitVec.eq_of_toNat_eq zero))
  else .finite s (2 ^ 23 + fraction.toNat) (exponent.toNat - 150) (by positivity)

theorem toNat_leading_one (fraction : BitVec 23) :
    (1#1 ++ fraction).toNat = 2 ^ 23 + fraction.toNat := by
  have joined := Nat.two_pow_add_eq_or_of_lt fraction.isLt 1
  rw [mul_one] at joined
  rw [BitVec.toNat_append, Nat.shiftLeft_eq, joined]
  rfl

theorem unpack_eq (b : BitVec 32) :
    UnpackedFloat.unpack .binary32 b = ofFields (.ofBitVec (@unpackSign .binary32 b))
      (@unpackExponent .binary32 b) (@unpackMantissa .binary32 b) := by
  have bias : ((Format.binary32.exponentBias : ℤ) + (23 : ℕ)) = 150 := rfl
  unfold UnpackedFloat.unpack ofFields
  simp only [bias, toNat_leading_one]

theorem unpack_packComponents (s : Sign) (exponent : BitVec 8) (fraction : BitVec 23) :
    UnpackedFloat.unpack .binary32 (packComponents .binary32 s exponent fraction) =
      ofFields s exponent fraction := by
  rw [unpack_eq, unpackSign_packComponents, unpackExponent_packComponents,
    unpackMantissa_packComponents, Sign.ofBitVec_toBitVec]

theorem pack_normal {m : ℕ} {e : ℤ} (normal : IsNormal m e) (s : Sign) :
    UnpackedFloat.pack .binary32 (.finite s m e normal.pos) =
      packComponents .binary32 s (BitVec.ofNat 8 (e + 150).toNat) (BitVec.ofNat 23 m) := by
  have le := normal.le
  have biased : e + (Format.binary32.exponentBias : ℤ) + (23 : ℕ) = e + 150 := by
    change e + 127 + 23 = e + 150
    omega
  have inside : ¬ 2 ^ 8 ≤ (e + 150).toNat + 1 := by omega
  simp only [UnpackedFloat.pack, biased, normal.log2_eq, if_neg inside]
  exact if_pos rfl

theorem unpack_pack_normal {m : ℕ} {e : ℤ} (normal : IsNormal m e) (s : Sign) :
    UnpackedFloat.unpack .binary32 (UnpackedFloat.pack .binary32 (.finite s m e normal.pos)) =
      .finite s m e normal.pos := by
  obtain ⟨low, high, ge, le⟩ := id normal
  have code : (BitVec.ofNat 8 (e + 150).toNat).toNat = (e + 150).toNat := by
    rw [BitVec.toNat_ofNat, Nat.mod_eq_of_lt (by omega)]
  have finite : BitVec.ofNat 8 (e + 150).toNat ≠ -1#8 := fun same => by
    have bits : (BitVec.ofNat 8 (e + 150).toNat).toNat = 255 := congrArg BitVec.toNat same
    omega
  have positive : BitVec.ofNat 8 (e + 150).toNat ≠ 0#8 := fun same => by
    have bits : (BitVec.ofNat 8 (e + 150).toNat).toNat = 0 := congrArg BitVec.toNat same
    omega
  rw [pack_normal normal, unpack_packComponents, ofFields, if_neg finite, if_neg positive]
  congr 1
  · rw [BitVec.toNat_ofNat]
    omega
  · rw [code]
    omega

/-- A pattern that is not the canonical NaN packs to itself, and every NaN packs to that one. -/
theorem unpack_pack_unpack (b : BitVec 32) :
    UnpackedFloat.unpack .binary32
        (UnpackedFloat.pack .binary32 (UnpackedFloat.unpack .binary32 b)) =
      UnpackedFloat.unpack .binary32 b := by
  rw [@pack_unpack .binary32 b (by decide)]
  split
  · next nan =>
    obtain ⟨top, ne⟩ := of_decide_eq_true nan
    rw [unpack_packedNaN, unpack_eq, ofFields, if_pos top, if_neg ne]
  · rfl

def sign (x : Binary32) : Sign := if x.isNegative then .negative else .positive

theorem exponent_lt (x : Binary32) : x.exponent < 256 := Nat.mod_lt _ (by decide)

theorem significand_ge {x : Binary32} (h : x.exponent ≠ 0) : 2 ^ 23 ≤ x.significand := by
  rw [significand, if_neg h]
  omega

theorem significand_lt (x : Binary32) : x.significand < 2 ^ 24 := by
  have := x.fraction_lt
  rw [significand]
  split <;> omega

theorem unpack_bits (x : Binary32) : UnpackedFloat.unpack .binary32 x.bits =
    ofFields x.sign (BitVec.ofNat 8 x.exponent) (BitVec.ofNat 23 x.fraction) := by
  have top : @unpackSign .binary32 x.bits = BitVec.ofBool x.isNegative := by
    ext i lt
    have zero : i = 0 := by omega
    subst zero
    simp [unpackSign, BitVec.extractLsb, isNegative]
    rfl
  have middle : @unpackExponent .binary32 x.bits = BitVec.ofNat 8 x.exponent := by
    apply BitVec.eq_of_toNat_eq
    simp [unpackExponent, BitVec.extractLsb, Nat.shiftRight_eq_div_pow, exponent]
  have low : @unpackMantissa .binary32 x.bits = BitVec.ofNat 23 x.fraction := by
    apply BitVec.eq_of_toNat_eq
    simp [unpackMantissa, fraction]
  rw [unpack_eq, top, middle, low, sign]
  cases x.isNegative <;> rfl

theorem unpack_toFloat (x : Binary32) : x.toFloat.toModel.unpack =
    if x.exponent = 255 then if x.fraction = 0 then .infinity x.sign else .notANumber
    else if h : x.significand = 0 then .zero x.sign
    else .finite x.sign x.significand ((max x.exponent 1 : ℕ) - 150) (Nat.pos_of_ne_zero h) := by
  have lt := x.exponent_lt
  have lt' := x.fraction_lt
  have code : (BitVec.ofNat 8 x.exponent).toNat = x.exponent := by
    rw [BitVec.toNat_ofNat, Nat.mod_eq_of_lt lt]
  have code' : (BitVec.ofNat 23 x.fraction).toNat = x.fraction := by
    rw [BitVec.toNat_ofNat, Nat.mod_eq_of_lt lt']
  have finite : BitVec.ofNat 8 x.exponent = -1#8 ↔ x.exponent = 255 := by
    rw [← BitVec.toNat_inj, code]
    rfl
  have subnormal : BitVec.ofNat 8 x.exponent = 0#8 ↔ x.exponent = 0 := by
    rw [← BitVec.toNat_inj, code]
    rfl
  have whole : BitVec.ofNat 23 x.fraction = 0#23 ↔ x.fraction = 0 := by
    rw [← BitVec.toNat_inj, code']
    rfl
  change UnpackedFloat.unpack .binary32
    (UnpackedFloat.pack .binary32 (UnpackedFloat.unpack .binary32 x.bits)) = _
  rw [unpack_pack_unpack, unpack_bits, ofFields]
  simp only [finite, subnormal, whole, code, code', significand]
  split
  · rfl
  · by_cases zero : x.exponent = 0
    · simp only [zero, if_true]
      rfl
    · have ne : 8388608 + x.fraction ≠ 0 := by omega
      have at_least : max x.exponent 1 = x.exponent := by omega
      simp only [zero, if_false, ne, dite_false, at_least]
      rfl

theorem float_le_iff (a b : Float32) :
    a ≤ b ↔ a.toModel.unpack.le b.toModel.unpack = true := by
  change decide (a.toModel ≤ b.toModel) = true ↔ _
  rw [decide_eq_true_iff]
  rfl

theorem finite_le_finite_iff {m n : ℕ} {e f : ℤ} (hm : 0 < m) (hn : 0 < n) :
    UnpackedFloat.le (.finite .positive m e hm) (.finite .positive n f hn) = true ↔
      e < f ∨ e = f ∧ m ≤ n := by
  change Option.any _ (some ((compare e f).then (compare m n))) = true ↔ _
  rw [Option.any_some, Ordering.isLE_then_iff_or]
  simp [Int.compare_eq_lt, Nat.isLE_compare]

section Powers

variable {y : Float32} {k : ℕ} (small : k ≤ 16)
  (power : y.toModel.unpack = .finite .positive (2 ^ 23) (k - 23) (by decide))
include small power

theorem le_toFloat_iff (x : Binary32) :
    y ≤ x.toFloat ↔ x.isNaN = false ∧ x.isNegative = false ∧ k + 127 ≤ x.exponent := by
  rw [float_le_iff, power, unpack_toFloat]
  by_cases special : x.exponent = 255
  · by_cases infinite : x.fraction = 0
    · have large : k + 127 ≤ 255 := by omega
      cases negative : x.isNegative <;>
        simp [special, infinite, sign, negative, isNaN, large, UnpackedFloat.le,
          UnpackedFloat.compare]
    · simp [special, infinite, isNaN, UnpackedFloat.le, UnpackedFloat.compare]
  · have number : x.isNaN = false := by simp [isNaN, special]
    rw [if_neg special]
    by_cases zero : x.significand = 0
    · have low : x.exponent = 0 := by
        by_contra ne
        have := significand_ge ne
        omega
      simp [zero, low, UnpackedFloat.le, UnpackedFloat.compare]
    · rw [dif_neg zero]
      cases negative : x.isNegative with
      | true => simp [sign, negative, UnpackedFloat.le, UnpackedFloat.compare]
      | false =>
        simp only [sign, negative, number, Bool.false_eq_true, if_false, finite_le_finite_iff,
          true_and]
        constructor
        · omega
        · intro le
          have := significand_ge (x := x) (by omega)
          omega

theorem toFloat_le_iff {x : Binary32} (positive : x.isNegative = false) :
    x.toFloat ≤ y ↔
      x.isNaN = false ∧ (x.exponent < k + 127 ∨ x.exponent = k + 127 ∧ x.fraction = 0) := by
  rw [float_le_iff, power, unpack_toFloat, sign, positive]
  by_cases special : x.exponent = 255
  · have large : ¬ 255 < k + 127 ∧ ¬ 255 = k + 127 := by omega
    by_cases infinite : x.fraction = 0 <;>
      simp [special, infinite, isNaN, large, UnpackedFloat.le, UnpackedFloat.compare]
  · have number : x.isNaN = false := by simp [isNaN, special]
    rw [if_neg special]
    by_cases zero : x.significand = 0
    · have low : x.exponent = 0 := by
        by_contra ne
        have := significand_ge ne
        omega
      simp [zero, low, number, UnpackedFloat.le, UnpackedFloat.compare]
    · rw [dif_neg zero]
      simp only [number, Bool.false_eq_true, if_false, finite_le_finite_iff, true_and]
      rw [significand]
      split <;> omega

end Powers

theorem isNaN_of_isFinite {x : Binary32} (finite : x.isFinite = true) : x.isNaN = false := by
  simp only [isFinite, isNaN, bne_iff_ne, ne_eq] at finite ⊢
  simp [finite]

theorem num_eq (x : Binary32) : x.num = x.significand * 2 ^ (max x.exponent 1 - 150) :=
  Nat.shiftLeft_eq _ _

theorem den_eq (x : Binary32) : x.den = 2 ^ (150 - max x.exponent 1) := Nat.one_shiftLeft _

theorem num_of_lt {x : Binary32} (h : x.exponent < 150) : x.num = x.significand := by
  have below : max x.exponent 1 - 150 = 0 := by omega
  rw [num_eq, below, pow_zero, mul_one]

theorem num_of_ge {x : Binary32} (h : 150 ≤ x.exponent) : 2 ^ 23 ≤ x.num := by
  rw [num_eq]
  exact le_mul_of_le_of_one_le (significand_ge (by omega)) Nat.one_le_two_pow

theorem den_of_ge {x : Binary32} (h : 150 ≤ x.exponent) : x.den = 1 := by
  have whole : 150 - max x.exponent 1 = 0 := by omega
  rw [den_eq, whole, pow_zero]

theorem two_pow_le_iff {k : ℕ} (small : k ≤ 16) (x : Binary32) :
    2 ^ k * x.den ≤ x.num ↔ k + 127 ≤ x.exponent := by
  have lt := x.significand_lt
  rcases Nat.lt_or_ge x.exponent 150 with below | above
  · rw [num_of_lt below, den_eq, ← pow_add]
    constructor
    · intro le
      by_contra high
      have large : 2 ^ 24 ≤ 2 ^ (k + (150 - max x.exponent 1)) :=
        Nat.pow_le_pow_right (by decide) (by omega)
      omega
    · intro le
      have fits : 2 ^ (k + (150 - max x.exponent 1)) ≤ 2 ^ 23 :=
        Nat.pow_le_pow_right (by decide) (by omega)
      exact fits.trans (significand_ge (by omega))
  · have num := num_of_ge above
    have fits : 2 ^ k ≤ 2 ^ 23 := Nat.pow_le_pow_right (by decide) (by omega)
    rw [den_of_ge above, mul_one]
    exact iff_of_true (fits.trans num) (by omega)

theorem le_two_pow_iff {k : ℕ} (small : k ≤ 16) (x : Binary32) :
    x.num ≤ 2 ^ k * x.den ↔ x.exponent < k + 127 ∨ x.exponent = k + 127 ∧ x.fraction = 0 := by
  have lt := x.significand_lt
  rcases Nat.lt_or_ge x.exponent 150 with below | above
  · rw [num_of_lt below, den_eq, ← pow_add]
    rcases lt_trichotomy x.exponent (k + 127) with less | same | more
    · have large : 2 ^ 24 ≤ 2 ^ (k + (150 - max x.exponent 1)) :=
        Nat.pow_le_pow_right (by decide) (by omega)
      exact iff_of_true (by omega) (Or.inl less)
    · have place : k + (150 - max x.exponent 1) = 23 := by omega
      rw [place, significand, if_neg (by omega)]
      omega
    · have fits : 2 ^ (k + (150 - max x.exponent 1)) < 2 ^ 23 :=
        Nat.pow_lt_pow_right (by decide) (by omega)
      have := significand_ge (x := x) (by omega)
      exact iff_of_false (by omega) (by omega)
  · have num := num_of_ge above
    have fits : 2 ^ k < 2 ^ 23 := Nat.pow_lt_pow_right (by decide) (by omega)
    rw [den_of_ge above, mul_one]
    exact iff_of_false (by omega) (by omega)

theorem unpack_one : (1 : Float32).toModel.unpack =
    .finite .positive (2 ^ 23) ((0 : ℕ) - 23) (by decide) := rfl

theorem unpack_65536 : (65536 : Float32).toModel.unpack =
    .finite .positive (2 ^ 23) ((16 : ℕ) - 23) (by decide) := rfl

theorem unpack_256 : (256 : Float32).toModel.unpack =
    .finite .positive (2 ^ 23) ((8 : ℕ) - 23) (by decide) := rfl

/-- The bounds of a divider, as floating point compares them and as exact numbers. -/
theorem bounds_iff_isBetween (x : Binary32) :
    1 ≤ x.toFloat ∧ x.toFloat ≤ 65536 ↔ x.isBetween 1 65536 = true := by
  have low := two_pow_le_iff (k := 0) (by decide) x
  have high := le_two_pow_iff (k := 16) (by decide) x
  rw [le_toFloat_iff (k := 0) (by decide) unpack_one]
  simp only [isBetween, Bool.and_eq_true, Bool.not_eq_true', decide_eq_true_eq]
  rw [← pow_zero 2, low, show 65536 = 2 ^ 16 from rfl, high]
  constructor
  · rintro ⟨⟨number, positive, ge⟩, le⟩
    rw [toFloat_le_iff (k := 16) (by decide) unpack_65536 positive] at le
    have finite : x.isFinite = true := by
      simp [isFinite]
      omega
    exact ⟨⟨finite, positive⟩, ge, le.2⟩
  · rintro ⟨⟨finite, positive⟩, ge, le⟩
    have number := isNaN_of_isFinite finite
    refine ⟨⟨number, positive, ge⟩, ?_⟩
    exact (toFloat_le_iff (k := 16) (by decide) unpack_65536 positive).mpr ⟨number, le⟩

end PioBlock.Binary32
