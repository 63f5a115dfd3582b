import PioBlock.Proofs.Settings.ReadBack
import Mathlib.Data.Rat.Floor
import Mathlib.Algebra.Order.Floor.Semifield

/-! The divider of the clock as a number. Any pattern is accepted just when it denotes a number from
1 to 65536, and then the divider is that number cut to 256ths, exactly. The divider that a
configuration tells is the one that it holds, so setting it again changes nothing. -/

namespace PioBlock

namespace Binary32

open Float.Model Float.Model.UnpackedFloat

/-- The number that a finite pattern denotes. -/
def value? (x : Binary32) : Option ℚ :=
  if x.isFinite then some ((if x.isNegative then -1 else 1) * ((x.num : ℚ) / x.den)) else none

theorem value?_eq_some_iff {x : Binary32} {r : ℚ} : x.value? = some r ↔
    x.isFinite = true ∧ (if x.isNegative then -1 else 1) * ((x.num : ℚ) / x.den) = r := by
  rw [value?]
  split
  · next finite => rw [Option.some_inj, and_iff_right finite]
  · next infinite => exact iff_of_false nofun fun h => infinite h.1

theorem le_div_le_iff (n low high : ℕ) {d : ℕ} (pos : 0 < d) :
    (low : ℚ) ≤ (n : ℚ) / d ∧ (n : ℚ) / d ≤ high ↔ low * d ≤ n ∧ n ≤ high * d := by
  have pos : (0 : ℚ) < d := by exact_mod_cast pos
  rw [le_div_iff₀ pos, div_le_iff₀ pos]
  norm_cast

theorem isBetween_iff_value (x : Binary32) {low : ℕ} (high : ℕ) (pos : 0 < low) :
    x.isBetween low high = true ↔ ∃ r, x.value? = some r ∧ low ≤ r ∧ r ≤ high := by
  have magnitude := le_div_le_iff x.num low high x.den_pos
  have nonneg : 0 ≤ (x.num : ℚ) / x.den := div_nonneg (Nat.cast_nonneg _) (Nat.cast_nonneg _)
  simp only [isBetween, Bool.and_eq_true, Bool.not_eq_true', decide_eq_true_eq,
    value?_eq_some_iff, ← magnitude]
  generalize (x.num : ℚ) / x.den = r at nonneg
  constructor
  · rintro ⟨⟨finite, positive⟩, ge, le⟩
    exact ⟨r, ⟨finite, by rw [positive]; simp⟩, ge, le⟩
  · rintro ⟨_, ⟨finite, rfl⟩, ge, le⟩
    cases negative : x.isNegative with
    | false =>
      simp only [negative, Bool.false_eq_true, if_false, one_mul] at ge le
      exact ⟨⟨finite, rfl⟩, ge, le⟩
    | true =>
      simp only [negative, if_true] at ge
      have above : (0 : ℚ) < low := by exact_mod_cast pos
      linarith

theorem floorScaled_eq_floor {x : Binary32} {r : ℚ} (value : x.value? = some r) (nonneg : 0 ≤ r)
    (scale : ℕ) : x.floorScaled scale = ⌊scale * r⌋₊ := by
  obtain ⟨-, value⟩ := value?_eq_some_iff.mp value
  have magnitude : 0 ≤ (x.num : ℚ) / x.den := div_nonneg (Nat.cast_nonneg _) (Nat.cast_nonneg _)
  have same : (x.num : ℚ) / x.den = r := by
    generalize (x.num : ℚ) / x.den = s at value magnitude
    split at value <;> linarith
  rw [floorScaled, ← same, ← mul_div_assoc, ← Nat.cast_mul, Nat.floor_div_eq_div]

theorem two_pow_div_two_pow (p q : ℕ) : (2 : ℚ) ^ (p - q) / 2 ^ (q - p) = 2 ^ ((p : ℤ) - q) := by
  rw [← zpow_natCast, ← zpow_natCast, ← zpow_sub₀ two_ne_zero]
  congr 1
  omega

theorem magnitude_eq {x : Binary32} {n k : ℕ} {e : ℤ} (significand : x.significand = n * 2 ^ k)
    (place : (max x.exponent 1 : ℕ) - 150 = e - k) : (x.num : ℚ) / x.den = n * 2 ^ e := by
  have num := congrArg (Nat.cast (R := ℚ)) x.num_eq
  have den := congrArg (Nat.cast (R := ℚ)) x.den_eq
  rw [significand] at num
  push_cast at num den
  rw [num, den, mul_div_assoc, two_pow_div_two_pow, Nat.cast_ofNat, place, mul_assoc,
    ← zpow_natCast, ← zpow_add₀ two_ne_zero, add_sub_cancel]

theorem value?_ofFloat {x : Float32} {m : ℕ} {e : ℤ} (hx : Represents x m e) (ne : m ≠ 0) :
    (ofFloat x).value? = some ((m : ℚ) * 2 ^ e) := by
  have computed : (ofFloat x).toFloat.toModel.unpack = x.toModel.unpack :=
    congrArg (·.toModel.unpack) x.ofBits_toBits
  rw [hx.unpack_eq, dyadic_of_ne ne, unpack_toFloat] at computed
  generalize ofFloat x = y at computed
  split at computed
  · split at computed <;> cases computed
  · next finite =>
    split at computed
    · cases computed
    · injection computed with sign significand place
      have positive : y.isNegative = false := by
        rw [Binary32.sign] at sign
        cases negative : y.isNegative with
        | false => rfl
        | true => rw [negative] at sign; cases sign
      refine value?_eq_some_iff.mpr ⟨by simpa [isFinite] using finite, ?_⟩
      rw [magnitude_eq significand place, positive]
      exact one_mul _

theorem represents_65536 : Represents 65536 1 16 :=
  ⟨⟨by decide, by decide, by decide⟩, unpack_65536⟩

end Binary32

namespace Setting

theorem putAll_stores_twice (s : Setting) (c : Config) :
    (c.putAll s.stores).putAll s.stores = c.putAll s.stores := by
  apply Config.eq_of_get_eq
  · intro a f member
    by_cases own : a = s.aspect
    · rw [own, ← stores_fst] at member
      obtain ⟨store, stored, rfl⟩ := List.mem_map.mp member
      rw [get_putAll_stores s _ store stored, get_putAll_stores s _ store stored]
    · exact get_putAll_of_ne own _ f member
  · exact fun w i outside => bit_putAll (outside s.aspect) _

end Setting

namespace Config

/-- The divider `int + frac / 256` in 256ths, where an `int` of 0 means 65536. -/
def parts256 (int : BitVec 16) (frac : BitVec 8) : ℕ :=
  256 * (if int = 0 then 65536 else int.toNat) + frac.toNat

variable {int : BitVec 16} {frac : BitVec 8} {c c' : Config}

theorem parts256_bounds (inside : int = 0 → frac = 0) :
    256 ≤ parts256 int frac ∧ parts256 int frac ≤ 65536 * 256 := by
  have int_lt := int.isLt
  have frac_lt := frac.isLt
  rw [parts256]
  split
  · next zero =>
    rw [inside zero]
    decide
  · next ne =>
    have pos : int.toNat ≠ 0 := fun zero => ne (BitVec.eq_of_toNat_eq zero)
    omega

theorem ofNat_parts256 (int : BitVec 16) (frac : BitVec 8) :
    BitVec.ofNat 16 (parts256 int frac / 256) = int ∧
      BitVec.ofNat 8 (parts256 int frac % 256) = frac := by
  have frac_lt := frac.isLt
  have whole : parts256 int frac / 256 = if int = 0 then 65536 else int.toNat := by
    rw [parts256]
    omega
  have part : parts256 int frac % 256 = frac.toNat := by
    rw [parts256]
    omega
  rw [whole, part]
  constructor
  · split
    · next zero =>
      rw [zero]
      rfl
    · exact (BitVec.ofNat_toNat 16 int).trans (BitVec.setWidth_eq int)
  · exact (BitVec.ofNat_toNat 8 frac).trans (BitVec.setWidth_eq frac)

theorem parts256_ofNat {n : ℕ} (low : 256 ≤ n) (high : n ≤ 65536 * 256) :
    parts256 (BitVec.ofNat 16 (n / 256)) (BitVec.ofNat 8 (n % 256)) = n := by
  have part : (BitVec.ofNat 8 (n % 256)).toNat = n % 256 := by
    rw [BitVec.toNat_ofNat]
    omega
  have whole : (BitVec.ofNat 16 (n / 256)).toNat = n / 256 % 65536 := BitVec.toNat_ofNat _ _
  have zero : BitVec.ofNat 16 (n / 256) = 0 ↔ n / 256 % 65536 = 0 := by
    rw [← BitVec.toNat_inj, whole]
    rfl
  simp only [parts256, part, zero, whole]
  split <;> omega

/-- The real divider is computed without a rounding error. -/
theorem value?_clockDivisor (inside : int = 0 → frac = 0) (held : c.clkdivIntFrac = (int, frac)) :
    c.clockDivisor.value? = some ((parts256 int frac : ℚ) / 256) := by
  have part := (Binary32.represents_ofUInt8 (.ofBitVec frac)).div_two_pow Binary32.unpack_256
    (by decide)
  rw [clockDivisor, held]
  by_cases zero : int = 0
  · obtain rfl := zero
    obtain rfl := inside rfl
    have part : Binary32.Represents ((UInt8.ofBitVec 0).toFloat32 / 256) 0 16 :=
      ⟨⟨by decide, by decide, by decide⟩, part.unpack_eq⟩
    have sum := Binary32.represents_65536.add part (by decide)
    refine (Binary32.value?_ofFloat sum (by decide)).trans (congrArg some ?_)
    norm_num [parts256]
  · have int_lt : int.toNat < 2 ^ 16 := int.isLt
    have frac_lt : frac.toNat < 2 ^ 8 := frac.isLt
    have pos : int.toNat ≠ 0 := fun none => zero (BitVec.eq_of_toNat_eq none)
    have whole : Binary32.Represents (UInt16.ofBitVec int).toFloat32 (int.toNat * 2 ^ 8) (0 - 8) :=
      (Binary32.represents_ofUInt16 (.ofBitVec int)).scale (j := 8)
        (show int.toNat * 2 ^ 8 < 2 ^ 24 by omega) (by decide)
    have sum := whole.add part (show int.toNat * 2 ^ 8 + frac.toNat < 2 ^ 24 by omega)
    have value := Binary32.value?_ofFloat sum (show int.toNat * 2 ^ 8 + frac.toNat ≠ 0 by omega)
    simp only [if_neg zero]
    refine value.trans (congrArg some ?_)
    have units : int.toNat * 2 ^ 8 + frac.toNat = parts256 int frac := by
      rw [parts256, if_neg zero]
      omega
    change ((int.toNat * 2 ^ 8 + frac.toNat : ℕ) : ℚ) * 2 ^ (-8 : ℤ) = _
    rw [units, zpow_neg, div_eq_mul_inv]
    norm_num

/-- The configuration `c'` differs from `c` only in its divider, which is `q` 256ths. -/
structure Divided (c c' : Config) (q : ℕ) : Prop where
  divider256_eq : c'.divider256 = q
  low : ∀ i < 8, c'.clkdiv.getLsbD i = c.clkdiv.getLsbD i
  others : c'.execctrl = c.execctrl ∧ c'.shiftctrl = c.shiftctrl ∧ c'.pinctrl = c.pinctrl
  value : c'.clockDivisor.value? = some ((q : ℚ) / 256)
  again : (setClkdiv c'.clockDivisor).apply c' = .ok c'

theorem clkdivIntFrac_of_set (set : (setClkdivIntFrac int frac).apply c = .ok c') :
    c'.clkdivIntFrac = (int, frac) := by
  obtain ⟨inside, rfl⟩ := Setting.eq_putAll_of_apply (s := .clkdivIntFrac int frac) set
  have told := Setting.reading_putAll inside nofun c
  injection told with int frac
  exact Prod.ext int frac

theorem setClkdivIntFrac_twice (set : (setClkdivIntFrac int frac).apply c = .ok c') :
    (setClkdivIntFrac int frac).apply c' = .ok c' := by
  obtain ⟨inside, rfl⟩ := Setting.eq_putAll_of_apply (s := .clkdivIntFrac int frac) set
  have again := Setting.apply_of_inRange inside (c.putAll (Setting.clkdivIntFrac int frac).stores)
  rwa [Setting.putAll_stores_twice] at again

theorem setClkdiv_of_value {divisor : Binary32} (inside : int = 0 → frac = 0)
    (value : divisor.value? = some ((parts256 int frac : ℚ) / 256)) :
    setClkdiv divisor = setClkdivIntFrac int frac := by
  obtain ⟨low, high⟩ := parts256_bounds inside
  have low : (256 : ℚ) ≤ parts256 int frac := by exact_mod_cast low
  have high : (parts256 int frac : ℚ) ≤ 65536 * 256 := by exact_mod_cast high
  have between : divisor.isBetween 1 65536 = true :=
    (divisor.isBetween_iff_value _ one_pos).mpr
      ⟨_, value, by push_cast; linarith, by push_cast; linarith⟩
  have scaled : divisor.floorScaled 256 = parts256 int frac := by
    rw [Binary32.floorScaled_eq_floor value (by linarith)]
    push_cast
    rw [mul_div_cancel₀ _ (by norm_num), Nat.floor_natCast]
  obtain ⟨whole, part⟩ := ofNat_parts256 int frac
  rw [setClkdiv_eq, if_pos between, scaled, whole, part]

theorem divided_of_set (set : (setClkdivIntFrac int frac).apply c = .ok c') :
    Divided c c' (parts256 int frac) := by
  have held := clkdivIntFrac_of_set set
  have twice := setClkdivIntFrac_twice set
  obtain ⟨inside, rfl⟩ := Setting.eq_putAll_of_apply (s := .clkdivIntFrac int frac) set
  have value := value?_clockDivisor inside held
  refine ⟨?_, fun i small => ?_, ⟨rfl, rfl, rfl⟩, value, ?_⟩
  · rw [divider256, held]
    rfl
  · have outside : ∀ i < 8, Aspect.clkdiv.covers .clkdiv i = false := by decide
    exact Setting.bit_putAll (s := .clkdivIntFrac int frac) (w := .clkdiv) (outside i small) c
  · rw [setClkdiv_of_value inside value]
    exact twice

/-- A real divider is accepted just when it is a number from 1 to 65536, and a refused one changes
nothing. An accepted one is cut to 256ths, exactly; an accepted one given by its two parts is kept.
Either way nothing but the divider changes, the real divider that is then told is the one held, and
setting that one again changes nothing. -/
theorem setClkdiv_exact (divisor : Binary32) (c : Config) :
    ((∃ c', (setClkdiv divisor).apply c = .ok c') ↔ ∃ r, divisor.value? = some r ∧ 1 ≤ r ∧ r ≤ 65536) ∧
    (∀ e, (setClkdiv divisor).apply c = .error e → (setClkdiv divisor).result c = c) ∧
    (∀ c', (setClkdiv divisor).apply c = .ok c' → ∃ r, divisor.value? = some r ∧
      Divided c c' ⌊256 * r⌋₊ ∧ (⌊256 * r⌋₊ : ℚ) / 256 ≤ r ∧ r < ((⌊256 * r⌋₊ : ℚ) + 1) / 256) ∧
    ∀ int frac c', (setClkdivIntFrac int frac).apply c = .ok c' → Divided c c' (parts256 int frac) := by
  have accepted := divisor.isBetween_iff_value 65536 one_pos
  push_cast at accepted
  have refused : ¬ divisor.isBetween 1 65536 = true →
      (setClkdiv divisor).apply c = .error ⟨.clkdiv, divisor.toInt64⟩ := fun outside => by
    rw [setClkdiv_eq, if_neg outside]
    rfl
  refine ⟨⟨?_, ?_⟩, fun e => Setting.result_of_refused (s := .clkdiv divisor), ?_,
    fun int frac c' => divided_of_set⟩
  · rintro ⟨c', set⟩
    refine accepted.mp (by_contra fun outside => ?_)
    rw [refused outside] at set
    cases set
  · intro inside
    exact ⟨_, Setting.apply_of_inRange (s := .clkdiv divisor) (accepted.mpr inside) c⟩
  · intro c' set
    obtain ⟨between, -⟩ := Setting.eq_putAll_of_apply (s := .clkdiv divisor) set
    obtain ⟨r, value, low, high⟩ := accepted.mp between
    have between : divisor.isBetween 1 65536 = true := between
    rw [setClkdiv_eq, if_pos between] at set
    have scaled := Binary32.floorScaled_eq_floor value (by linarith) 256
    have parts := parts256_ofNat (n := divisor.floorScaled 256)
      (by rw [scaled]; exact Nat.le_floor (by push_cast; linarith))
      (by rw [scaled]; exact Nat.floor_le_of_le (by push_cast; linarith))
    have divided := divided_of_set set
    rw [parts, scaled] at divided
    have floor := Nat.floor_le (show 0 ≤ 256 * r by linarith)
    have next := Nat.lt_floor_add_one (256 * r)
    exact ⟨r, value, divided, by linarith, by linarith⟩

theorem setClkdiv_exact_runs :
    (∃ c', (setClkdiv ⟨0x402ccccd⟩).apply reset = .ok c' ∧ c'.divider256 = 691 ∧
      c'.clockDivisor.value? = some (691 / 256) ∧ (setClkdiv c'.clockDivisor).apply c' = .ok c') ∧
    (setClkdiv ⟨0x7fc00000⟩).result reset = reset ∧
    ∃ c', (setClkdivIntFrac 0 0).apply reset = .ok c' ∧ c'.clockDivisor.value? = some 65536 := by
  have value : (⟨0x402ccccd⟩ : Binary32).value? = some (11324621 / 4194304) :=
    Binary32.value?_eq_some_iff.mpr ⟨by decide, by
      rw [Binary32.magnitude_eq (n := 11324621) (k := 0) (e := -22) (by decide) (by decide)]
      rw [if_neg (by decide)]
      norm_num⟩
  obtain ⟨accepted, -, cut, parts⟩ := setClkdiv_exact ⟨0x402ccccd⟩ reset
  obtain ⟨c', set⟩ := accepted.mpr ⟨_, value, by norm_num, by norm_num⟩
  obtain ⟨r, same, divided, -⟩ := cut c' set
  obtain rfl := Option.some.inj (value.symm.trans same)
  have units : ⌊256 * (11324621 / 4194304 : ℚ)⌋₊ = 691 := by norm_num [Nat.floor_eq_iff]
  rw [units] at divided
  obtain ⟨none, unchanged, -⟩ := setClkdiv_exact ⟨0x7fc00000⟩ reset
  refine ⟨⟨c', set, divided.divider256_eq, divided.value, divided.again⟩, ?_, ?_⟩
  · cases outcome : (setClkdiv ⟨0x7fc00000⟩).apply reset with
    | error e => exact unchanged e outcome
    | ok c' =>
      obtain ⟨r, number, -⟩ := none.mp ⟨c', outcome⟩
      cases number
  · have set : (setClkdivIntFrac 0 0).apply reset = .ok { reset with clkdiv := 0 } := by decide
    refine ⟨_, set, (parts 0 0 _ set).value.trans (congrArg some ?_)⟩
    norm_num [parts256]

end Config

end PioBlock
