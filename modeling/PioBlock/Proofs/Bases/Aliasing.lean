import PioBlock.Proofs.FlatMemory
import Mathlib.Algebra.Group.Nat.Defs
import Mathlib.Data.List.Basic

/-! A block at any base. The register that an address selects is found from its distance to the
base, but the alias that it is written through is read off the address itself. So at every base all
registers are reached, through all four aliases; that the alias is the one asked for is another
matter, and holds just where the registers that are accessed have no alias bit in their address. -/

namespace PioBlock

namespace Alias

def ofBits : Bool → Bool → Alias
  | false, false => .plain
  | true, false => .toggle
  | false, true => .set
  | true, true => .clear

theorem ofAddress_eq_ofBits (address : Word) :
    ofAddress address = ofBits (address.getLsbD 12) (address.getLsbD 13) := by
  have selected : address &&& selector =
      (ofBits (address.getLsbD 12) (address.getLsbD 13)).bits := by
    apply BitVec.eq_of_getLsbD_eq
    intro j _
    rw [BitVec.getLsbD_and]
    by_cases middle : j = 12 ∨ j = 13
    · rw [getLsbD_selector.mpr middle, Bool.and_true]
      obtain rfl | rfl := middle
      all_goals cases address.getLsbD 12 <;> cases address.getLsbD 13 <;> rfl
    · have outside : selector.getLsbD j = false :=
        Bool.eq_false_iff.mpr fun one => middle (getLsbD_selector.mp one)
      have none : (ofBits (address.getLsbD 12) (address.getLsbD 13)).bits.getLsbD j = false :=
        Bool.eq_false_iff.mpr fun one => middle (getLsbD_bits one)
      rw [outside, Bool.and_false, none]
  simp only [ofAddress, selected]
  cases address.getLsbD 12 <;> cases address.getLsbD 13 <;> decide

end Alias

namespace PioRegister

/-- The registers that operations access: all up to those of the last state machine. -/
def Driven (r : PioRegister) : Prop := r.index < 74

instance : DecidablePred Driven := fun r => inferInstanceAs (Decidable (r.index < 74))

theorem driven_machine (sm : StateMachine) (r : MachineRegister) : (machine sm r).Driven := by
  have first := sm.isLt
  have last : r.offset ≤ 5 := by cases r <;> decide
  change 50 + 6 * sm.val + r.offset < 74
  omega

theorem driven_instrMem (slot : Slot) : (instrMem slot).Driven := by
  have last := slot.isLt
  change 18 + slot.val < 74
  omega

theorem driven_txf (sm : StateMachine) : (txf sm).Driven := by
  have last := sm.isLt
  change 4 + sm.val < 74
  omega

theorem driven_rxf (sm : StateMachine) : (rxf sm).Driven := by
  have last := sm.isLt
  change 8 + sm.val < 74
  omega

end PioRegister

namespace Layout

variable {base : Word} {i : Nat}

def IsAligned (base : Word) : Prop := base &&& 3 = 0

instance : DecidablePred IsAligned := fun base => inferInstanceAs (Decidable (base &&& 3 = 0))

/-- No register up to the last one driven has an alias bit in its address. -/
def IsAliasFree (base : Word) : Prop := base.toNat % 0x4000 + 4 * 73 < 0x1000

instance : DecidablePred IsAliasFree := fun base =>
  inferInstanceAs (Decidable (base.toNat % 0x4000 + 4 * 73 < 0x1000))

theorem getLsbD_address (base : Word) (i k : Nat) :
    (address base i).getLsbD k = decide ((base.toNat + 4 * i) % 2 ^ 32 / 2 ^ k % 2 = 1) := by
  change (address base i).toNat.testBit k = _
  rw [Nat.testBit_eq_decide_div_mod_eq, address, BitVec.toNat_add, BitVec.toNat_ofNat,
    Nat.add_mod_mod]

theorem IsAliasFree.ofAddress_address (free : IsAliasFree base) (driven : i < 74) (a : Alias) :
    Alias.ofAddress (address base i ||| a.bits) = a := by
  unfold IsAliasFree at free
  have low : (address base i).getLsbD 12 = false := by
    rw [getLsbD_address, decide_eq_false_iff_not]
    omega
  have high : (address base i).getLsbD 13 = false := by
    rw [getLsbD_address, decide_eq_false_iff_not]
    omega
  rw [Alias.ofAddress_eq_ofBits, BitVec.getLsbD_or, BitVec.getLsbD_or, low, high]
  cases a <;> rfl

/-- Otherwise the last register driven is not written plainly, or else setting in the first one
clears. The first happens unless the addresses run on into the next 16 KiB. -/
theorem misread_of_not_isAliasFree (taken : ¬ IsAliasFree base) :
    Alias.ofAddress (address base 73) ≠ .plain ∨
      Alias.ofAddress (address base 0 ||| Alias.set.bits) = .clear := by
  unfold IsAliasFree at taken
  rw [Alias.ofAddress_eq_ofBits, Alias.ofAddress_eq_ofBits, BitVec.getLsbD_or, BitVec.getLsbD_or]
  by_cases plain : (address base 73).getLsbD 12 = false ∧ (address base 73).getLsbD 13 = false
  · right
    have low : (address base 0).getLsbD 12 = true := by
      simp only [getLsbD_address, decide_eq_false_iff_not, decide_eq_true_eq] at plain ⊢
      omega
    rw [low]
    cases (address base 0).getLsbD 13 <;> rfl
  · left
    revert plain
    cases (address base 73).getLsbD 12 <;> cases (address base 73).getLsbD 13 <;>
      simp [Alias.ofBits]

theorem or_bits_eq_add (address : Word) (a : Alias) :
    address ||| a.bits = address + (a.bits &&& ~~~address) := by
  have apart : address &&& (a.bits &&& ~~~address) = 0 :=
    and_eq_zero_of_apart fun j one other => by
      rw [BitVec.getLsbD_and, BitVec.getLsbD_not, one] at other
      simp at other
  rw [BitVec.add_eq_or_of_and_eq_zero _ _ apart]
  apply BitVec.eq_of_getLsbD_eq
  intro j hj
  rw [BitVec.getLsbD_or, BitVec.getLsbD_or, BitVec.getLsbD_and, BitVec.getLsbD_not,
    decide_eq_true hj]
  cases address.getLsbD j <;> simp

theorem select_address_or_bits (base : Word) (hi : i < 1024) (a : Alias) :
    RegisterBlock.select base (address base i ||| a.bits) = i := by
  let added := a.bits &&& ~~~address base i
  have middle : ∀ {j}, added.getLsbD j = true → j = 12 ∨ j = 13 := fun one => by
    rw [BitVec.getLsbD_and, Bool.and_eq_true] at one
    exact Alias.getLsbD_bits one.1
  have apart : byteOffset i &&& added = 0 := and_eq_zero_of_apart fun j ho one => by
    have low := getLsbD_byteOffset hi ho
    have high := middle one
    omega
  have distance : (address base i ||| a.bits) - base = byteOffset i ||| added := by
    rw [or_bits_eq_add, ← BitVec.add_eq_or_of_and_eq_zero _ _ apart, address, BitVec.add_assoc,
      BitVec.add_comm, BitVec.add_sub_cancel]
    rfl
  have kept : (byteOffset i ||| added) &&& ~~~Alias.selector = byteOffset i := by
    apply BitVec.eq_of_getLsbD_eq
    intro j hj
    rw [BitVec.getLsbD_and, BitVec.getLsbD_or, BitVec.getLsbD_not, decide_eq_true hj]
    by_cases selected : j = 12 ∨ j = 13
    · have none : (byteOffset i).getLsbD j = false := Bool.eq_false_iff.mpr fun one => by
        have low := getLsbD_byteOffset hi one
        omega
      rw [Alias.getLsbD_selector.mpr selected, none]
      simp
    · have outside : Alias.selector.getLsbD j = false :=
        Bool.eq_false_iff.mpr fun one => selected (Alias.getLsbD_selector.mp one)
      have none : added.getLsbD j = false := Bool.eq_false_iff.mpr fun one => selected (middle one)
      rw [outside, none]
      simp
  rw [RegisterBlock.select, distance, kept, byteOffset, BitVec.toNat_ushiftRight,
    BitVec.toNat_ofNat, Nat.shiftRight_eq_div_pow]
  omega

theorem isAligned_iff_toNat_mod {w : Word} : IsAligned w ↔ w.toNat % 4 = 0 := by
  have low : (w &&& 3).toNat = w.toNat % 4 := by
    rw [BitVec.toNat_and]
    exact Nat.and_two_pow_sub_one_eq_mod w.toNat 2
  rw [IsAligned, ← low, ← BitVec.toNat_inj]
  rfl

theorem IsAligned.address_or_bits (aligned : IsAligned base) (i : Nat) (a : Alias) :
    IsAligned (address base i ||| a.bits) := by
  rw [isAligned_iff_toNat_mod] at aligned ⊢
  have place : (address base i).toNat % 4 = 0 := by
    rw [address, BitVec.toNat_add, BitVec.toNat_ofNat]
    omega
  rw [← Nat.and_two_pow_sub_one_eq_mod _ 2] at place ⊢
  have bits : a.bits.toNat &&& (2 ^ 2 - 1) = 0 := by cases a <;> decide
  rw [BitVec.toNat_or, Nat.and_or_distrib_right, place, bits]
  rfl

end Layout

namespace Dispatch

def lone (base : Word) (registers : List Register) : Dispatch RegisterFile := ⟨[⟨base, registers⟩]⟩

variable {base : Word} {registers : List Register} (aligned : Layout.IsAligned base)
  (size : registers.length = PioRegister.count) (r : PioRegister)
include aligned size

theorem selects_lone (a : Alias) :
    (lone base registers).Selects (Layout.address base r.index ||| a.bits) 0 r.index where
  aligned := aligned.address_or_bits r.index a
  reaches := ⟨base, registers.length, rfl,
    Layout.select_address_or_bits base (Nat.lt_trans r.index_lt (by decide)) a, size ▸ r.index_lt⟩
  first earlier lt := absurd lt (Nat.not_lt_zero earlier)

theorem read_lone (a : Alias) :
    ∃ word, RegisterSpace.read (Layout.address base r.index ||| a.bits) (lone base registers) =
      (.ok word, lone base registers) ∧ registers[r.index]?.map (·.value) = some word := by
  have inside : r.index < registers.length := size ▸ r.index_lt
  have there := List.getElem?_eq_getElem inside
  exact ⟨registers[r.index].value, (selects_lone aligned size r a).read_eq there,
    congrArg (Option.map (·.value)) there⟩

theorem write_lone (a : Alias) (w : MaskedWrite) :
    RegisterSpace.write (Layout.address base r.index ||| a.bits) w (lone base registers) =
      (.ok (), lone base (registers.modify r.index (·.write w))) := by
  have inside : r.index < registers.length := size ▸ r.index_lt
  have there : (lone base registers).register? 0 r.index = some registers[r.index] :=
    List.getElem?_eq_getElem inside
  rw [List.modify_eq_set_get _ inside, (selects_lone aligned size r a).write_eq there]
  obtain ⟨f, first, -, stored⟩ := storeAt_of_register? there
    (registers[r.index].kind.store w registers[r.index].value)
  obtain rfl : RegisterFile.mk base registers = f := Option.some.inj first
  rw [stored]
  rfl

end Dispatch

end PioBlock
