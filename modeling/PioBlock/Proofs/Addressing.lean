import PioBlock.Handle
import Mathlib.Tactic.Common

/-! How an address selects a register and an alias. At a base on which the four aliases of 4 KiB
fit, that is a multiple of 16 KiB, the base, the register offset and the alias of an address have
no bit in common, so setting alias bits and adding them come to the same. -/

namespace PioBlock

theorem Alias.getLsbD_selector {j : Nat} :
    Alias.selector.getLsbD j = true ↔ j = 12 ∨ j = 13 := by
  have all : ∀ j : Fin 32, Alias.selector.getLsbD j.val = true ↔ j.val = 12 ∨ j.val = 13 := by
    decide
  constructor
  · exact fun h => (all ⟨j, BitVec.lt_of_getLsbD h⟩).mp h
  · exact fun h => (all ⟨j, by omega⟩).mpr h

theorem Alias.bits_and_selector (a : Alias) : a.bits &&& Alias.selector = a.bits := by
  cases a <;> decide

theorem Alias.getLsbD_bits {a : Alias} {j : Nat} (h : a.bits.getLsbD j = true) :
    j = 12 ∨ j = 13 := by
  rw [← a.bits_and_selector, BitVec.getLsbD_and, Bool.and_eq_true] at h
  exact Alias.getLsbD_selector.mp h.2

theorem RegisterBlock.le_select {base address : Word} (far : 0x4000 ≤ (address - base).toNat) :
    0x1000 ≤ RegisterBlock.select base address := by
  obtain ⟨j, high, bit⟩ := Nat.exists_ge_and_testBit_of_ge_two_pow (n := 14) far
  have kept : Alias.selector.getLsbD j = false := by
    cases h : Alias.selector.getLsbD j with
    | false => rfl
    | true =>
      have middle := Alias.getLsbD_selector.mp h
      omega
  have inside : j < 32 := BitVec.lt_of_getLsbD bit
  have shifted : 2 + (j - 2) = j := by omega
  have stays : (RegisterBlock.select base address).testBit (j - 2) = true := by
    change (((address - base) &&& ~~~Alias.selector) >>> 2).getLsbD (j - 2) = true
    rw [BitVec.getLsbD_ushiftRight, shifted, BitVec.getLsbD_and, BitVec.getLsbD_not, kept,
      decide_eq_true inside]
    exact Bool.and_true _ ▸ bit
  calc 0x1000 = 2 ^ 12 := rfl
    _ ≤ 2 ^ (j - 2) := Nat.pow_le_pow_right (by decide) (by omega)
    _ ≤ RegisterBlock.select base address := Nat.ge_two_pow_of_testBit stays
namespace Layout

/-- Whether the four aliases of a block at `base` fill 16 KiB from there on. -/
def IsWindow (base : Word) : Prop := base &&& 0x3fff = 0

instance : DecidablePred IsWindow := fun base =>
  inferInstanceAs (Decidable (base &&& 0x3fff = 0))

theorem isWindow_iff_dvd {base : Word} : IsWindow base ↔ 0x4000 ∣ base.toNat := by
  have low : (base &&& 0x3fff).toNat = base.toNat % 0x4000 := by
    rw [BitVec.toNat_and]
    exact Nat.and_two_pow_sub_one_eq_mod base.toNat 14
  rw [IsWindow, Nat.dvd_iff_mod_eq_zero, ← low, ← BitVec.toNat_inj]
  rfl

theorem isWindow_of_blockBase? {pio : Nat} {base : Word} (h : blockBase? pio = some base) :
    IsWindow base := by
  unfold blockBase? at h
  split at h <;> cases h
  all_goals decide

theorem IsWindow.le_of_getLsbD {base : Word} (window : IsWindow base) {j : Nat}
    (h : base.getLsbD j = true) : 14 ≤ j := by
  by_contra low
  have ones : ∀ j : Fin 14, (0x3fff : Word).getLsbD j.val = true := by decide
  have meet := congrArg (·.getLsbD j) window
  rw [BitVec.getLsbD_and, h, ones ⟨j, by omega⟩] at meet
  simp at meet

def byteOffset (i : Nat) : Word := BitVec.ofNat 32 (4 * i)

variable {base : Word} {i : Nat}

theorem getLsbD_byteOffset (hi : i < 1024) {j : Nat} (h : (byteOffset i).getLsbD j = true) :
    2 ≤ j ∧ j < 12 := by
  rw [byteOffset, BitVec.getLsbD_ofNat, Bool.and_eq_true] at h
  have bit : (2 ^ 2 * i).testBit j = true := h.2
  constructor
  · rw [Nat.testBit_two_pow_mul] at bit
    simp only [Bool.and_eq_true, decide_eq_true_eq] at bit
    exact bit.1
  · by_contra high
    have small : 2 ^ 2 * i < 2 ^ j :=
      calc 2 ^ 2 * i < 2 ^ 12 := by omega
        _ ≤ 2 ^ j := Nat.pow_le_pow_right (by decide) (by omega)
    rw [Nat.testBit_lt_two_pow small] at bit
    cases bit

theorem address_eq_or (window : IsWindow base) (hi : i < 1024) :
    address base i = base ||| byteOffset i := by
  refine BitVec.add_eq_or_of_and_eq_zero _ _ (and_eq_zero_of_apart fun j hb ho => ?_)
  have high := window.le_of_getLsbD hb
  have low := getLsbD_byteOffset hi ho
  omega

theorem address_or_bits_sub (window : IsWindow base) (hi : i < 1024) (a : Alias) :
    (address base i ||| a.bits) - base = byteOffset i ||| a.bits := by
  have apart : base &&& (byteOffset i ||| a.bits) = 0 := by
    refine and_eq_zero_of_apart fun j hb h => ?_
    have high := window.le_of_getLsbD hb
    rw [BitVec.getLsbD_or, Bool.or_eq_true] at h
    rcases h with ho | ha
    · have low := getLsbD_byteOffset hi ho
      omega
    · have middle := Alias.getLsbD_bits ha
      omega
  rw [address_eq_or window hi, BitVec.or_assoc, ← BitVec.add_eq_or_of_and_eq_zero _ _ apart,
    BitVec.add_comm, BitVec.add_sub_cancel]

theorem select_address (window : IsWindow base) (hi : i < 1024) (a : Alias) :
    RegisterBlock.select base (address base i ||| a.bits) = i := by
  have offset : byteOffset i &&& Alias.selector = 0 := by
    refine and_eq_zero_of_apart fun j ho hs => ?_
    have low := getLsbD_byteOffset hi ho
    have middle := Alias.getLsbD_selector.mp hs
    omega
  have kept : (byteOffset i ||| a.bits) &&& ~~~Alias.selector = byteOffset i := by
    apply BitVec.eq_of_getLsbD_eq
    intro j hj
    have ho := congrArg (·.getLsbD j) offset
    have ha := congrArg (·.getLsbD j) a.bits_and_selector
    simp only [BitVec.getLsbD_and, BitVec.getLsbD_or, BitVec.getLsbD_not, hj] at ho ha ⊢
    revert ho ha
    cases (byteOffset i).getLsbD j <;> cases a.bits.getLsbD j <;>
      cases Alias.selector.getLsbD j <;> simp
  rw [RegisterBlock.select, address_or_bits_sub window hi, kept, byteOffset,
    BitVec.toNat_ushiftRight, BitVec.toNat_ofNat, Nat.shiftRight_eq_div_pow]
  omega

theorem address_and_three (window : IsWindow base) (hi : i < 1024) (a : Alias) :
    (address base i ||| a.bits) &&& 3 = 0 := by
  refine and_eq_zero_of_apart fun j h low => ?_
  have all : ∀ j : Fin 32, (3 : Word).getLsbD j.val = true → j.val < 2 := by decide
  have below : j < 2 := all ⟨j, BitVec.lt_of_getLsbD low⟩ low
  rw [address_eq_or window hi, BitVec.getLsbD_or, BitVec.getLsbD_or, Bool.or_eq_true,
    Bool.or_eq_true] at h
  rcases h with (hb | ho) | ha
  · have := window.le_of_getLsbD hb
    omega
  · have := getLsbD_byteOffset hi ho
    omega
  · have := Alias.getLsbD_bits ha
    omega

theorem or_bits_plain (address : Word) : address ||| Alias.plain.bits = address :=
  BitVec.or_zero

theorem address_and_selector (window : IsWindow base) (hi : i < 1024) :
    address base i &&& Alias.selector = 0 := by
  refine and_eq_zero_of_apart fun j h hs => ?_
  have middle := Alias.getLsbD_selector.mp hs
  rw [address_eq_or window hi, BitVec.getLsbD_or, Bool.or_eq_true] at h
  rcases h with hb | ho
  · have := window.le_of_getLsbD hb
    omega
  · have := getLsbD_byteOffset hi ho
    omega

theorem address_add_bits (window : IsWindow base) (hi : i < 1024) (a : Alias) :
    address base i + a.bits = address base i ||| a.bits := by
  refine BitVec.add_eq_or_of_and_eq_zero _ _ ?_
  rw [← a.bits_and_selector, BitVec.and_comm a.bits, ← BitVec.and_assoc,
    address_and_selector window hi]
  exact BitVec.zero_and

theorem toNat_address_or_bits (window : IsWindow base) (hi : i < 1024) (a : Alias) :
    base.toNat ≤ (address base i ||| a.bits).toNat ∧
      (address base i ||| a.bits).toNat < base.toNat + 0x4000 := by
  have multiple := isWindow_iff_dvd.mp window
  have below := base.isLt
  have alias_le : a.bits.toNat ≤ 0x3000 := by cases a <;> decide
  rw [← address_add_bits window hi, address, BitVec.toNat_add, BitVec.toNat_add,
    BitVec.toNat_ofNat]
  omega

theorem le_select_of_ne {other address : Word} (window : IsWindow base) (window' : IsWindow other)
    (ne : base ≠ other) (low : base.toNat ≤ address.toNat)
    (high : address.toNat < base.toNat + 0x4000) : 0x1000 ≤ RegisterBlock.select other address := by
  have multiple := isWindow_iff_dvd.mp window
  have multiple' := isWindow_iff_dvd.mp window'
  have distinct : base.toNat ≠ other.toNat := fun same => ne (BitVec.eq_of_toNat_eq same)
  have below := other.isLt
  refine RegisterBlock.le_select ?_
  rw [BitVec.toNat_sub]
  omega

theorem ofAddress_address (window : IsWindow base) (hi : i < 1024) (a : Alias) :
    Alias.ofAddress (address base i ||| a.bits) = a := by
  have selected : (address base i ||| a.bits) &&& Alias.selector = a.bits := by
    rw [BitVec.and_comm, BitVec.and_or_distrib_left, BitVec.and_comm,
      address_and_selector window hi, BitVec.and_comm, a.bits_and_selector]
    simp
  simp only [Alias.ofAddress, selected]
  cases a <;> decide

end Layout

end PioBlock
