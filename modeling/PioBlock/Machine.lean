import PioBlock.Operation
import PioBlock.Wait
import PioBlock.Bench

/-! A machine is a dispatch over blocks, the clock that times it, and a handle for each block
that is driven. A chip is a machine of one or two blocks at their hardware addresses, fresh
from reset, with a clock that only its owner moves. -/

namespace PioBlock

structure Machine (β : Type) where
  dispatch : Dispatch β
  clock : Clock
  handles : List Handle

/-- What a step of a machine gives back: an outcome, the machine afterwards, and the accesses
made. -/
structure Step (β α : Type) where
  outcome : α
  machine : Machine β
  trace : List Access

namespace Machine

variable {β α : Type} [RegisterBlock β]

def transact (m : Machine β) (t : Transaction α) : Step β (Except RegisterError α) :=
  let r := (ExceptT.run t).run m.dispatch
  ⟨r.value, { m with dispatch := r.space }, r.trace⟩

def wait (m : Machine β) (w : Wait) : Step β (Option (Except RegisterError Word)) :=
  let r := w.run m.dispatch m.clock
  ⟨r.answer, { m with dispatch := r.dispatch, clock := r.clock }, r.trace⟩

/-- Performs an operation through the handle at a position, which must exist. -/
def perform (m : Machine β) (polls position : Nat) (op : Operation) :
    Option (Step β (Except Failure Answer)) :=
  m.handles[position]?.map fun h =>
    let r := ((op.perform polls).start h).run m.dispatch
    ⟨r.value.1, { m with dispatch := r.space, handles := m.handles.set position r.value.2 }, r.trace⟩

def mapBlock (m : Machine β) (position : Nat) (change : β → β) : Machine β :=
  match m.dispatch.block? position with
  | some block => { m with dispatch := m.dispatch.replace position (change block) }
  | none => m

/-- Changes the register file of the block at a position, past the block's policy. -/
def updateFile (m : Machine β) (position : Nat)
    (change : RegisterFile → Except BlockFault RegisterFile) :
    Option (Except BlockFault (Machine β)) :=
  (m.dispatch.file? position).map fun file => do
    let file ← change file
    return m.mapBlock position (RegisterBlock.setFile · file)

def advance (m : Machine β) (cycles : Cycle) : Machine β :=
  { m with clock := m.clock.advance cycles }

end Machine

abbrev Chip := Machine RegisterFile

def Chip.defaultCount : Nat := Layout.blockCount

def Chip.ofCount (count : Nat) : Except PioError Chip :=
  if 1 ≤ count ∧ count ≤ Layout.blockCount then do
    let handles ← (List.range count).mapM Handle.pio
    return ⟨⟨(List.range count).filterMap RegisterFile.pio?⟩, .stopped 0, handles⟩
  else .error (.argument (.blockCount count))

abbrev BenchMachine := Machine BenchBlock

/-- How often a status has to be polled at most before it stays as it is: each scripted value and
each planned fault can bear on one poll. -/
def BenchMachine.polls (m : BenchMachine) : Nat :=
  m.dispatch.blocks.foldr (·.pendingAccesses + ·) 1

end PioBlock
