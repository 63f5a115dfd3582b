import PioBlock.Word

/-! Binary floating-point numbers of 32 bits, as bit patterns with an exact value. A finite
pattern denotes `num / den`, negated when its sign bit is one, where `den` is a power of two.
Computations go through `Float32`, which rounds each result. -/

namespace PioBlock

structure Binary32 where
  bits : Word
deriving DecidableEq, Repr

namespace Binary32

def isNegative (x : Binary32) : Bool := x.bits.getLsbD 31

def exponent (x : Binary32) : Nat := x.bits.toNat / 0x800000 % 256

def fraction (x : Binary32) : Nat := x.bits.toNat % 0x800000

theorem fraction_lt (x : Binary32) : x.fraction < 0x800000 := Nat.mod_lt _ (by decide)

def isFinite (x : Binary32) : Bool := x.exponent != 255

def isNaN (x : Binary32) : Bool := x.exponent == 255 && x.fraction != 0

/-- The significand, with its leading one unless the number is subnormal. -/
def significand (x : Binary32) : Nat :=
  if x.exponent = 0 then x.fraction else 0x800000 + x.fraction

/-- The numerator of the magnitude of a finite number. -/
def num (x : Binary32) : Nat := x.significand <<< (max x.exponent 1 - 150)

def den (x : Binary32) : Nat := 1 <<< (150 - max x.exponent 1)

theorem den_pos (x : Binary32) : 0 < x.den := by
  rw [den, Nat.one_shiftLeft]
  exact Nat.two_pow_pos _

/-- Whether the number lies between two natural numbers, ends included. -/
def isBetween (x : Binary32) (low high : Nat) : Bool :=
  x.isFinite && !x.isNegative && decide (low * x.den ≤ x.num ∧ x.num ≤ high * x.den)

/-- The largest natural number that is at most `scale` times the magnitude. -/
def floorScaled (x : Binary32) (scale : Nat) : Nat := scale * x.num / x.den

/-- The integer next to the number on the side of zero, held within 64 bits; a NaN gives 0. -/
def toInt64 (x : Binary32) : Int :=
  if x.isNaN then 0
  else if x.isNegative then
    if x.isFinite then max (-0x8000000000000000) (-(x.floorScaled 1 : Int))
    else -0x8000000000000000
  else
    if x.isFinite then min 0x7fffffffffffffff (x.floorScaled 1 : Int) else 0x7fffffffffffffff

def toFloat (x : Binary32) : Float32 := .ofBits (.ofBitVec x.bits)

def ofFloat (x : Float32) : Binary32 := ⟨x.toBits.toBitVec⟩

end Binary32

end PioBlock
