import PioBlock.Control.Start
import Mathlib.Algebra.Group.Nat.Defs
import Mathlib.Data.Fintype.Basic

/-! Arithmetic that checks itself. Elsewhere a sum of words wraps and a shift past the end of a word
gives zero. Here every sum, difference, product and shift is made in the width that it has in the
program, and ends in a panic when it leaves it. What the control protocol does with fields,
addresses and masks is computed once more in this arithmetic, and each computation is followed by
the equation with the unchecked one. -/

namespace PioBlock

/-- What a panic is about: a sum, a difference, a product or a shift past its width, a span that
is no field, or slots to be freed that are not all taken. -/
inductive Panic where
  | sum
  | difference
  | product
  | shift
  | span (fault : SpanFault)
  | breach (breach : Breach)
deriving DecidableEq, Repr

abbrev Checked := Except Panic

/-- Every register of a block at `base` has an address of 32 bits. -/
def Layout.Fits (base : Word) : Prop := base.toNat + 4 * (PioRegister.count - 1) < 2 ^ 32

instance : DecidablePred Layout.Fits := fun _ => inferInstanceAs (Decidable (_ < _))

namespace Checked

@[simp] theorem ok_bind {α β : Type} (a : α) (next : α → Checked β) :
    ((.ok a : Checked α) >>= next) = next a := rfl

@[simp] theorem pure_eq_ok {α : Type} (a : α) : (pure a : Checked α) = .ok a := rfl

def add (width a b : Nat) : Checked Nat := if a + b < 2 ^ width then .ok (a + b) else .error .sum

theorem add_eq_ok {width a b : Nat} (fits : a + b < 2 ^ width) : add width a b = .ok (a + b) :=
  if_pos fits

def sub (a b : Nat) : Checked Nat := if b ≤ a then .ok (a - b) else .error .difference

theorem sub_eq_ok {a b : Nat} (le : b ≤ a) : sub a b = .ok (a - b) := if_pos le

def mul (width a b : Nat) : Checked Nat :=
  if a * b < 2 ^ width then .ok (a * b) else .error .product

theorem mul_eq_ok {width a b : Nat} (fits : a * b < 2 ^ width) : mul width a b = .ok (a * b) :=
  if_pos fits

def shl {n : Nat} (w : BitVec n) (amount : Nat) : Checked (BitVec n) :=
  if amount < n then .ok (w <<< amount) else .error .shift

theorem shl_eq_ok {n amount : Nat} (lt : amount < n) (w : BitVec n) :
    shl w amount = .ok (w <<< amount) := if_pos lt

def shr {n : Nat} (w : BitVec n) (amount : Nat) : Checked (BitVec n) :=
  if amount < n then .ok (w >>> amount) else .error .shift

theorem shr_eq_ok {n amount : Nat} (lt : amount < n) (w : BitVec n) :
    shr w amount = .ok (w >>> amount) := if_pos lt

def max (f : Field) : Checked Word := do shr allBits (← sub 32 f.width)

def mask (f : Field) : Checked Word := do shl (← max f) f.lsb

theorem mask_eq_ok (f : Field) : mask f = .ok f.mask := by
  have nonempty := f.width_pos
  have inside := f.in_word
  rw [mask, max, sub_eq_ok (by omega), ok_bind, shr_eq_ok (by omega), ok_bind,
    shl_eq_ok (by omega)]
  rfl

def extract (f : Field) (w : Word) : Checked Word := do shr (w &&& (← mask f)) f.lsb

theorem extract_eq_ok (f : Field) (w : Word) : extract f w = .ok (f.extract w) := by
  have nonempty := f.width_pos
  have inside := f.in_word
  rw [extract, mask_eq_ok, ok_bind, shr_eq_ok (by omega)]
  rfl

def insert (f : Field) (w v : Word) : Checked Word := do
  let bits ← mask f
  return (w &&& ~~~bits) ||| ((← shl v f.lsb) &&& bits)

theorem insert_eq_ok (f : Field) (w v : Word) : insert f w v = .ok (f.insert w v) := by
  have nonempty := f.width_pos
  have inside := f.in_word
  rw [insert, mask_eq_ok, ok_bind, shl_eq_ok (by omega)]
  rfl

def place (f : Field) (v : Word) : Checked Word := insert f 0 v

theorem place_eq_ok (f : Field) (v : Word) : place f v = .ok (f.place v) := insert_eq_ok f 0 v

def span (lsb width : Nat) : Checked Field := (Field.ofSpan lsb width).mapError .span

def txLevel (sm : Nat) : Checked Field := do span (← mul 32 sm 8) 4

theorem txLevel_eq_ok (sm : StateMachine) : txLevel sm.val = .ok (Layout.txLevel sm) := by
  rw [txLevel, mul_eq_ok (by omega), ok_bind, Nat.mul_comm, span, ← Layout.txLevel?,
    Layout.txLevel?_eq_ok]
  rfl

def rxLevel (sm : Nat) : Checked Field := do span (← add 32 (← mul 32 sm 8) 4) 4

theorem rxLevel_eq_ok (sm : StateMachine) : rxLevel sm.val = .ok (Layout.rxLevel sm) := by
  rw [rxLevel, mul_eq_ok (by omega), ok_bind, add_eq_ok (by omega), ok_bind, Nat.mul_comm, span,
    ← Layout.rxLevel?, Layout.rxLevel?_eq_ok]
  rfl

def machineIndex (sm : Nat) (r : MachineRegister) : Checked Nat := do
  add 32 (← add 32 50 (← mul 32 sm 6)) r.offset

theorem machineIndex_eq_ok (sm : StateMachine) (r : MachineRegister) :
    machineIndex sm.val r = .ok (PioRegister.machine sm r).index := by
  have small : r.offset < 6 := by cases r <;> decide
  rw [machineIndex, mul_eq_ok (by omega), ok_bind, add_eq_ok (by omega), ok_bind,
    add_eq_ok (by omega), Nat.mul_comm]
  rfl

def address (base : Word) (index : Nat) : Checked Word := do
  return BitVec.ofNat 32 (← add 32 base.toNat (← mul 32 index 4))

theorem address_eq_ok {base : Word} (fits : Layout.Fits base) (r : PioRegister) :
    address base r.index = .ok (Layout.address base r.index) := by
  have inside : r.index < 81 := r.index_lt
  have reach : base.toNat + 4 * (81 - 1) < 2 ^ 32 := fits
  rw [address, mul_eq_ok (by omega), ok_bind, add_eq_ok (by omega), ok_bind, Nat.mul_comm,
    BitVec.ofNat_add, BitVec.ofNat_toNat, BitVec.setWidth_eq]
  rfl

theorem and_bit_ne_zero {n i : Nat} (w : BitVec n) (lt : i < n) :
    (w &&& 1#n <<< i != 0#n) = w.getLsbD i := by
  rw [← BitVec.twoPow_eq, BitVec.and_twoPow]
  cases w.getLsbD i with
  | false => simp
  | true =>
    rw [if_pos rfl, bne_iff_ne]
    intro zero
    have one := congrArg (·.getLsbD i) zero
    simp [lt] at one

def status (w : Word) (lsb sm : Nat) : Checked Bool := do
  return w &&& (← shl 1 (← add 32 lsb sm)) != 0

theorem status_eq_ok {lsb : Nat} (w : Word) (sm : StateMachine) (inside : lsb + 4 ≤ 32) :
    status w lsb sm.val = .ok (w.getLsbD (lsb + sm.val)) := by
  have lt : lsb + sm.val < 32 := by omega
  rw [status, add_eq_ok (by omega), ok_bind, shl_eq_ok lt, ok_bind, ← and_bit_ne_zero w lt]
  rfl

def single (sm : Nat) : Checked (BitVec 8) := shl 1 sm

theorem single_eq_ok (sm : StateMachine) : single sm.val = .ok (sm.single.setWidth 8) := by
  revert sm
  decide

def has (s : MachineSet) (sm : Nat) : Checked Bool := do
  return s.setWidth 8 &&& (← single sm) != 0

theorem has_eq_ok (s : MachineSet) (sm : StateMachine) : has s sm.val = .ok (s.has sm) := by
  revert s sm
  decide

def lowestFree (s : MachineSet) : List StateMachine → Checked (Option StateMachine)
  | [] => return none
  | sm :: rest => do if ← has s sm.val then lowestFree s rest else return some sm

theorem lowestFree_eq_ok (s : MachineSet) (machines : List StateMachine) :
    lowestFree s machines = .ok (machines.find? (!s.has ·)) := by
  induction machines with
  | nil => rfl
  | cons sm rest ih =>
    rw [lowestFree, has_eq_ok, ok_bind, ih, List.find?_cons]
    cases s.has sm <;> rfl

theorem place_machines (f : Field) {mask : Nat} (small : mask < 16) :
    place f (BitVec.ofNat 32 mask) = .ok (f.place (MachineSet.word (BitVec.ofNat 4 mask))) := by
  have same : MachineSet.word (BitVec.ofNat 4 mask) = BitVec.ofNat 32 mask := by
    rw [MachineSet.word, BitVec.setWidth_ofNat_of_le_of_lt (by decide) small]
  rw [same, place_eq_ok]

def debugFlags (sm : Nat) : Checked Word := do
  let stalled ← place Layout.txStall (← shl 1 sm)
  let overrun ← place Layout.txOver (← shl 1 sm)
  let under ← place Layout.rxUnder (← shl 1 sm)
  return stalled ||| overrun ||| under ||| (← place Layout.rxStall (← shl 1 sm))

theorem debugFlags_eq_ok (sm : StateMachine) :
    debugFlags sm.val = .ok (Control.debugFlags sm) := by
  have flag : shl (1 : Word) sm.val = .ok (MachineSet.word sm.single) := by
    revert sm
    decide
  simp only [debugFlags, flag, ok_bind, place_eq_ok]
  rfl

def lowBits (n : Nat) : Checked Word :=
  if 32 ≤ n then return allBits
  else do return BitVec.ofNat 32 (← sub (← shl (1 : Word) n).toNat 1)

theorem lowBits_eq_ok (n : Nat) : lowBits n = .ok (PioBlock.lowBits n) := by
  by_cases large : 32 ≤ n
  · rw [lowBits, if_pos large, lowBits_of_le large]
    rfl
  · obtain ⟨k, rfl⟩ : ∃ k : Fin 32, n = k.val := ⟨⟨n, by omega⟩, rfl⟩
    revert k
    decide +kernel

end Checked

end PioBlock
