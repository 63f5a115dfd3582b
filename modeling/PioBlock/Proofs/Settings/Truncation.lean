import PioBlock.Proofs.Binary32.Exact
import PioBlock.Config

/-! A real divider is cut to 256ths without a rounding error. Between 1 and 65536 its integer part,
what is left of it, and 256 times that all have at most 24 significant bits, so the computation
gives the two parts of the exact divider in 256ths. -/

namespace PioBlock

namespace Binary32

theorem represents_toFloat {x : Binary32} (positive : x.isNegative = false)
    (low : 24 ≤ x.exponent) (high : x.exponent < 255) :
    Represents x.toFloat x.significand (x.exponent - 150) := by
  have normal : IsNormal x.significand (x.exponent - 150) :=
    ⟨significand_ge (by omega), x.significand_lt, by omega, by omega⟩
  refine ⟨⟨normal.high, by omega, normal.le⟩, ?_⟩
  have place : max x.exponent 1 = x.exponent := by omega
  rw [unpack_toFloat, if_neg (by omega), dif_neg normal.pos.ne', dyadic_of_isNormal normal]
  simp only [sign, positive, place]
  rfl

theorem Represents.parts_eq {x : Float32} {m j : ℕ} (hx : Represents x m (-(j + 8 : ℕ)))
    (lt : m < 65536 * 2 ^ (j + 8)) :
    x.toUInt16.toNat = m / 2 ^ (j + 8) ∧
    ((x - x.toUInt16.toFloat32) * 256).toUInt8.toNat = m / 2 ^ j % 256 := by
  have short := hx.reach.lt
  have ge := hx.reach.ge
  have int := hx.toUInt16_eq ((Nat.div_lt_iff_lt_mul (Nat.two_pow_pos _)).mpr lt)
  have int_le : m / 2 ^ (j + 8) * 2 ^ (j + 8) ≤ m := Nat.div_mul_le_self _ _
  have integer :
      Represents x.toUInt16.toFloat32 (m / 2 ^ (j + 8) * 2 ^ (j + 8)) (-(j + 8 : ℕ)) := by
    have aligned := (represents_ofUInt16 x.toUInt16).scale (j := j + 8) (by rw [int]; omega)
      (by omega)
    rwa [int, zero_sub] at aligned
  have rest : Represents ((x - x.toUInt16.toFloat32) * 256) (m % 2 ^ (j + 8)) (-j) := by
    have scaled := (hx.sub integer int_le).mul_two_pow unpack_256 (by omega)
    have left : m - m / 2 ^ (j + 8) * 2 ^ (j + 8) = m % 2 ^ (j + 8) := by
      have := Nat.div_add_mod' m (2 ^ (j + 8))
      omega
    have point : -((j + 8 : ℕ) : ℤ) + (8 : ℕ) = -j := by omega
    rwa [left, point] at scaled
  have cut : m % 2 ^ (j + 8) / 2 ^ j = m / 2 ^ j % 256 := by
    rw [pow_add]
    exact Nat.mod_mul_right_div_self m (2 ^ j) 256
  refine ⟨int, ?_⟩
  rw [rest.toUInt8_eq (by rw [cut]; omega), cut]

theorem parts_eq {x : Binary32} (between : x.isBetween 1 65536 = true)
    (below : ¬ 65536 ≤ x.toFloat) :
    x.toFloat.toUInt16.toNat = x.floorScaled 256 / 256 ∧
    ((x.toFloat - x.toFloat.toUInt16.toFloat32) * 256).toUInt8.toNat = x.floorScaled 256 % 256 := by
  simp only [isBetween, Bool.and_eq_true, Bool.not_eq_true', decide_eq_true_eq] at between
  obtain ⟨⟨finite, positive⟩, low, -⟩ := between
  rw [le_toFloat_iff (k := 16) (by decide) unpack_65536] at below
  rw [← pow_zero 2, two_pow_le_iff (k := 0) (by decide)] at low
  have high : x.exponent < 143 := by
    by_contra ge
    exact below ⟨isNaN_of_isFinite finite, positive, by omega⟩
  obtain ⟨j, place⟩ : ∃ j, x.exponent + j = 142 := ⟨142 - x.exponent, by omega⟩
  have unit : 2 ^ (j + 8) = 256 * 2 ^ j := by
    rw [pow_add, mul_comm]
    rfl
  have scaled : x.floorScaled 256 = x.significand / 2 ^ j := by
    have den : 150 - max x.exponent 1 = j + 8 := by omega
    rw [floorScaled, num_of_lt (by omega), den_eq, den, unit, Nat.mul_div_mul_left _ _ (by decide)]
  have whole := represents_toFloat positive (by omega) (by omega)
  have exponent : (x.exponent : ℤ) - 150 = -((j + 8 : ℕ) : ℤ) := by omega
  have lt := x.significand_lt
  have pos := Nat.two_pow_pos j
  rw [exponent] at whole
  obtain ⟨int, frac⟩ := whole.parts_eq (by omega)
  rw [scaled, int, frac, Nat.div_div_eq_div_mul, unit, mul_comm]
  exact ⟨rfl, rfl⟩

theorem floorScaled_of_ge {x : Binary32} (between : x.isBetween 1 65536 = true)
    (ge : 65536 ≤ x.toFloat) : x.floorScaled 256 = 65536 * 256 := by
  simp only [isBetween, Bool.and_eq_true, Bool.not_eq_true', decide_eq_true_eq] at between
  obtain ⟨-, -, high⟩ := between
  rw [le_toFloat_iff (k := 16) (by decide) unpack_65536] at ge
  rw [show 65536 = 2 ^ 16 from rfl, le_two_pow_iff (by decide)] at high
  have exponent : x.exponent = 143 := by omega
  have fraction : x.fraction = 0 := by omega
  rw [floorScaled, num_of_lt (by omega), den_eq, exponent, significand, exponent, fraction]
  rfl

end Binary32

namespace Config

/-- Setting a real divider sets the exact one, cut to 256ths. -/
theorem setClkdiv_eq (divisor : Binary32) :
    setClkdiv divisor =
      if divisor.isBetween 1 65536 then
        setClkdivIntFrac (BitVec.ofNat 16 (divisor.floorScaled 256 / 256))
          (BitVec.ofNat 8 (divisor.floorScaled 256 % 256))
      else throw ⟨.clkdiv, divisor.toInt64⟩ := by
  have bounds := divisor.bounds_iff_isBetween
  by_cases between : divisor.isBetween 1 65536 = true
  · simp only [setClkdiv, if_pos (bounds.mpr between), if_pos between]
    split
    · next ge =>
      rw [Binary32.floorScaled_of_ge between ge]
      rfl
    · next below =>
      obtain ⟨int, frac⟩ := Binary32.parts_eq between below
      rw [← int, ← frac]
      congr 1
      · exact ((BitVec.ofNat_toNat 16 _).trans (BitVec.setWidth_eq _)).symm
      · exact ((BitVec.ofNat_toNat 8 _).trans (BitVec.setWidth_eq _)).symm
  · simp only [setClkdiv, if_neg fun within => between (bounds.mp within), if_neg between]

end Config

end PioBlock
