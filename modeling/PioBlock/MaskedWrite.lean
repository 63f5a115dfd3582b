import PioBlock.Field

/-! A masked write replaces, or toggles, the bits that its mask selects and leaves the others
alone. A plain word written through one of the four aliases of a register is such a write. -/

namespace PioBlock

/-- A change of one register: under `mask`, `bits` replaces the old value or, with `toggle`,
flips it. -/
structure MaskedWrite where
  bits : Word
  mask : Word
  toggle : Bool
deriving DecidableEq, Repr

namespace MaskedWrite

def apply (m : MaskedWrite) (old : Word) : Word :=
  (old &&& ~~~m.mask) ||| ((if m.toggle then old ^^^ m.bits else m.bits) &&& m.mask)

theorem getLsbD_apply (m : MaskedWrite) (old : Word) (i : Nat) :
    (m.apply old).getLsbD i =
      if m.mask.getLsbD i then (if m.toggle then old.getLsbD i ^^ m.bits.getLsbD i
        else m.bits.getLsbD i)
      else old.getLsbD i := by
  by_cases h : i < 32
  · cases ht : m.toggle <;> cases hm : m.mask.getLsbD i <;>
      simp only [apply, ht, BitVec.getLsbD_or, BitVec.getLsbD_and, BitVec.getLsbD_not,
        BitVec.getLsbD_xor, hm, h, decide_true, if_true, if_false, Bool.and_true, Bool.and_false,
        Bool.not_true, Bool.not_false, Bool.false_or, Bool.or_false, reduceCtorEq]
  · simp [BitVec.getLsbD_of_ge _ i (Nat.le_of_not_lt h)]

def full (value : Word) : MaskedWrite := ⟨value, allBits, false⟩

theorem apply_full (value old : Word) : (full value).apply old = value := by
  simp [full, apply, and_allBits, not_allBits]

def field (f : Field) (value : Word) : MaskedWrite := ⟨f.place value, f.mask, false⟩

theorem apply_field (f : Field) (value old : Word) :
    (field f value).apply old = f.insert old value := by
  apply BitVec.eq_of_getLsbD_eq
  intro i _
  rw [getLsbD_apply, field, Field.getLsbD_mask, Field.getLsbD_insert, Field.getLsbD_place]
  cases f.covers i <;> rfl

end MaskedWrite

/-- The four addresses of one register: the plain one and those whose writes toggle, set or
clear the ones of the written word. -/
inductive Alias where
  | plain
  | toggle
  | set
  | clear
deriving DecidableEq, Repr

namespace Alias

/-- The address bits that tell the aliases apart. -/
def selector : Word := 0x3000

def bits : Alias → Word
  | .plain => 0x0000
  | .toggle => 0x1000
  | .set => 0x2000
  | .clear => 0x3000

def ofAddress (address : Word) : Alias :=
  if address &&& selector = Alias.plain.bits then .plain
  else if address &&& selector = Alias.toggle.bits then .toggle
  else if address &&& selector = Alias.set.bits then .set
  else .clear

/-- The masked write that a whole word stands for when written through the alias. -/
def write (a : Alias) (value : Word) : MaskedWrite :=
  match a with
  | .plain => ⟨value, allBits, false⟩
  | .toggle => ⟨value, allBits, true⟩
  | .set => ⟨value, value, false⟩
  | .clear => ⟨0, value, false⟩

theorem apply_write_plain (value old : Word) : (write .plain value).apply old = value :=
  MaskedWrite.apply_full value old

theorem apply_write_toggle (value old : Word) :
    (write .toggle value).apply old = old ^^^ value := by
  simp [write, MaskedWrite.apply, and_allBits, not_allBits]

theorem apply_write_set (value old : Word) : (write .set value).apply old = old ||| value := by
  apply BitVec.eq_of_getLsbD_eq
  intro i _
  rw [MaskedWrite.getLsbD_apply, BitVec.getLsbD_or]
  cases h : value.getLsbD i <;> simp only [write, h] <;> simp

theorem apply_write_clear (value old : Word) :
    (write .clear value).apply old = old &&& ~~~value := by
  simp [write, MaskedWrite.apply]

end Alias

def MaskedWrite.ofAddress (address value : Word) : MaskedWrite :=
  (Alias.ofAddress address).write value

end PioBlock
