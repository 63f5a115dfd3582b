import PioBlock.Layout

/-! Instruction words of 16 bits: the few that the control protocol issues itself, and the
relocation of a jump by a number of slots. -/

namespace PioBlock

abbrev Instruction := BitVec 16

inductive SetDestination where
  | pins
  | x
  | y
  | pindirs
deriving DecidableEq, Repr

def SetDestination.code : SetDestination → Nat
  | .pins => 0
  | .x => 1
  | .y => 2
  | .pindirs => 4

inductive OutDestination where
  | pins
  | x
  | y
  | null
  | pindirs
  | pc
  | isr
  | exec
deriving DecidableEq, Repr

def OutDestination.code : OutDestination → Nat
  | .pins => 0
  | .x => 1
  | .y => 2
  | .null => 3
  | .pindirs => 4
  | .pc => 5
  | .isr => 6
  | .exec => 7

namespace Instruction

/-- The five low bits that hold a jump target or a piece of data. -/
def operandMask : Instruction := 0x001f

/-- An instruction from its opcode, destination and operand, of which five bits are kept. -/
def encode (opcode : Instruction) (destination operand : Nat) : Instruction :=
  opcode ||| BitVec.ofNat 16 (destination <<< 5) ||| (BitVec.ofNat 16 operand &&& operandMask)

def jmp (target : Nat) : Instruction := encode 0x0000 0 target

def set (destination : SetDestination) (data : Nat) : Instruction :=
  encode 0xe000 destination.code data

/-- OUT of `count` bits, 32 of them written as 0. -/
def out (destination : OutDestination) (count : Nat) : Instruction :=
  encode 0x6000 destination.code count

def pull (ifEmpty block : Bool) : Instruction :=
  0x8080 ||| ((BitVec.ofBool ifEmpty).setWidth 16 <<< 6) |||
    ((BitVec.ofBool block).setWidth 16 <<< 5)

def isJmp (i : Instruction) : Bool := i &&& 0xe000 == 0

def target (i : Instruction) : Slot := ⟨(i &&& operandMask).toNat % 32, by omega⟩

/-- Moves the target of a jump by `offset` slots, around the end of the memory; all else stays. -/
def relocate (offset : Nat) (i : Instruction) : Instruction :=
  if isJmp i then
    (i &&& ~~~operandMask) ||| (((i &&& operandMask) + BitVec.ofNat 16 offset) &&& operandMask)
  else i

theorem relocate_of_not_isJmp {i : Instruction} (h : isJmp i = false) (offset : Nat) :
    relocate offset i = i := by simp [relocate, h]

end Instruction

end PioBlock
