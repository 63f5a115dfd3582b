import PioBlock.Instruction

/-! A program is one to thirty-two instructions with a place to load them and an edge from the
last slot of its loop back to the first. A draft holds what an author asked for; building it
checks the parts in one fixed order and fills in what was left open. -/

namespace PioBlock

/-- How a program uses the bits that its instructions share between delay and side-set. -/
structure SideSet where
  count : Nat
  isOptional : Bool
  pindirs : Bool
deriving DecidableEq, Repr

namespace SideSet

def none : SideSet := ⟨0, false, false⟩

def totalBits (s : SideSet) : Nat := s.count + s.isOptional.toNat

/-- The largest number of data bits that leaves room for the enabling one. -/
def maxCount (s : SideSet) : Nat := if s.isOptional then 4 else 5

theorem count_le_maxCount_iff (s : SideSet) : s.count ≤ s.maxCount ↔ s.totalBits ≤ 5 := by
  cases h : s.isOptional
  · simp only [maxCount, totalBits, h, Bool.toNat_false, Bool.false_eq_true, if_false]
    omega
  · simp only [maxCount, totalBits, h, Bool.toNat_true, if_true]
    omega

end SideSet

structure Program where
  id : Option String
  origin : Option Slot
  wrap : Slot
  wrapTarget : Slot
  sideSet : SideSet
  instructions : List Instruction
  id_ne_empty : id ≠ some ""
  sideSet_le : sideSet.totalBits ≤ 5
  instructions_pos : 0 < instructions.length
  instructions_le : instructions.length ≤ 32
deriving DecidableEq, Repr

namespace Program

def length (p : Program) : Nat := p.instructions.length

def isRelocatable (p : Program) : Bool := p.origin.isNone

def baseMask (p : Program) : Word := lowBits p.length

/-- The slot of the first instruction as far as the program fixes it. -/
def start (p : Program) : Nat := (p.origin.map (·.val)).getD 0

/-- The slots of the program: at its origin, or from slot 0 on when it has none. -/
def allocationMask (p : Program) : Word := p.baseMask.rotateLeft p.start

def image (p : Program) : List UInt8 :=
  p.instructions.flatMap fun i => [i.toNat.toUInt8, (i.toNat / 256).toUInt8]

theorem length_image (p : Program) : p.image.length = 2 * p.length := by
  rw [image, length]
  induction p.instructions with
  | nil => rfl
  | cons i is ih => simp [ih]; omega

/-- Each instruction with the slot that it takes when the program is loaded at `offset`. Jumps
of a relocatable program move along. -/
def loaded (p : Program) (offset : Nat) : List (Slot × Instruction) :=
  p.instructions.zipIdx.map fun (i, n) =>
    (⟨(offset + n) % 32, by omega⟩, if p.isRelocatable then i.relocate offset else i)

end Program

inductive ProgramError where
  | emptyId
  | originOutOfRange (origin : Nat)
  | wrapOutOfRange (wrap : Nat)
  | wrapTargetOutOfRange (target : Nat)
  | sideSetOutOfRange (count max : Nat)
  | empty
  | tooLong (length : Nat)
deriving DecidableEq, Repr

def ProgramError.message : ProgramError → String
  | .emptyId => "program id must not be empty"
  | .originOutOfRange origin => s!"origin {origin} out of range 0..=31"
  | .wrapOutOfRange wrap => s!"wrap {wrap} out of range 0..=31"
  | .wrapTargetOutOfRange target => s!"wrap target {target} out of range 0..=31"
  | .sideSetOutOfRange count max => s!"side-set count {count} out of range 0..={max}"
  | .empty => "empty program"
  | .tooLong length => s!"program has {length} instructions; at most 32 fit into instruction memory"

/-- The parts of a program as asked for, none of them checked yet. -/
structure Draft where
  id : Option String
  origin : Option Nat
  wrap : Option Nat
  wrapTarget : Option Nat
  sideSet : SideSet
  instructions : List Instruction
deriving DecidableEq, Repr

namespace Draft

def blank : Draft := ⟨none, none, none, none, SideSet.none, []⟩

def slot? (refusal : Nat → ProgramError) : Option Nat → Except ProgramError (Option Slot)
  | none => .ok none
  | some n => if h : n < 32 then .ok (some ⟨n, h⟩) else .error (refusal n)

theorem slot?_eq_ok_iff {refusal : Nat → ProgramError} {given : Option Nat}
    {slot : Option Slot} : slot? refusal given = .ok slot ↔ given = slot.map (·.val) := by
  cases given with
  | none => cases slot <;> simp [slot?]
  | some n =>
    by_cases h : n < 32
    · cases slot with
      | none => simp [slot?, h]
      | some s => simp [slot?, h, Fin.ext_iff]
    · cases slot with
      | none => simp [slot?, h]
      | some s =>
        have : n ≠ s.val := fun e => h (e ▸ s.isLt)
        simp [slot?, h, this]

def lastSlot (start : Option Slot) (length : Nat) : Slot :=
  ⟨((start.map (·.val)).getD 0 + (length - 1)) % 32, by omega⟩

/-- Checks the draft part by part; what it leaves open defaults to the program's own first and
last slots. -/
def build (d : Draft) : Except ProgramError Program :=
  if id_ne_empty : d.id ≠ some "" then
    match slot? .originOutOfRange d.origin with
    | .error e => .error e
    | .ok origin =>
    match slot? .wrapOutOfRange d.wrap with
    | .error e => .error e
    | .ok wrap =>
    match slot? .wrapTargetOutOfRange d.wrapTarget with
    | .error e => .error e
    | .ok wrapTarget =>
    if sideSet_le : d.sideSet.count ≤ d.sideSet.maxCount then
      if instructions_pos : 0 < d.instructions.length then
        if instructions_le : d.instructions.length ≤ 32 then
          .ok {
            id := d.id
            origin
            wrap := wrap.getD (lastSlot origin d.instructions.length)
            wrapTarget := wrapTarget.getD (origin.getD 0)
            sideSet := d.sideSet
            instructions := d.instructions
            id_ne_empty
            sideSet_le := d.sideSet.count_le_maxCount_iff.mp sideSet_le
            instructions_pos
            instructions_le }
        else .error (.tooLong d.instructions.length)
      else .error .empty
    else .error (.sideSetOutOfRange d.sideSet.count d.sideSet.maxCount)
  else .error .emptyId

end Draft

end PioBlock
