import PioBlock.Handle

/-! Loading programs into the instruction memory. Slots are taken before the instructions are
written; when a write fails they are given back, though words already written stay. Removing a
program only gives its slots back. -/

namespace PioBlock

def PioError.ofRequestFault : RequestFault → PioError
  | .originMismatch origin offset => .originMismatch origin.val offset
  | .outside offset => .argument (.offset offset)

namespace Control

/-- Serves a request for slots. One that only asks takes nothing, and is told when there is no
place; one that means it fails instead. -/
def allocate (r : SlotRequest) (checkOnly : Bool) : Control (Option Placement) := do
  let h ← get
  match r.place? h.occupancy with
  | some found =>
    unless checkOnly do set { h with occupancy := h.occupancy ||| found.slots }
    return some found
  | none => if checkOnly then return none else refuse .noSpace

/-- Whether a program could be loaded, at an offset of the caller's choice or anywhere. -/
def canLoad (p : Program) (offset : Option Nat) : Control Bool := do
  let r ← ofExcept .ofRequestFault (p.request offset)
  return (← allocate r true).isSome

/-- Whether a program could be loaded anywhere; one that cannot be asked for cannot. -/
def canLoadAnywhere (p : Program) : Control Bool :=
  tryCatch (canLoad p none) fun _ => pure false

def loadWrites (base : Word) (p : Program) (offset : Nat) : List (Word × Word) :=
  (p.loaded offset).map fun (slot, i) =>
    (Layout.address base (PioRegister.instrMem slot).index, i.setWidth 32)

/-- Loads a program into the block at `base` and tells where. -/
def loadInto (base : Word) (p : Program) (offset : Option Nat) : Control Nat := do
  let r ← ofExcept .ofRequestFault (p.request offset)
  match ← allocate r false with
  | none => refuse .noSpace
  | some found =>
    match ← attempt (.writeAll (loadWrites base p found.offset)) with
    | .ok () => return found.offset
    | .error e =>
      modify fun h => { h with occupancy := h.occupancy &&& ~~~(p.slotsAt found.offset) }
      refuse (.register e)

def load (p : Program) (offset : Option Nat) : Control Nat := do
  loadInto (← get).base p offset

/-- Gives back the slots of a program loaded at `offset`, all of which must be taken. -/
def unload (p : Program) (offset : Nat) : Control Unit := do
  let _ ← ofExcept .ofRequestFault (p.request (some offset))
  let h ← get
  let slots := p.slotsAt offset
  if h.occupancy &&& slots = slots then set { h with occupancy := h.occupancy &&& ~~~slots }
  else throw (.breach ⟨slots, offset, h.occupancy⟩)

def clearWrites (base : Word) : List (Word × Word) :=
  (List.finRange 32).map fun slot => (Layout.address base (PioRegister.instrMem slot).index, 0)

def clearIn (base : Word) : Control Unit := do
  transact (.writeAll (clearWrites base))
  modify fun h => { h with occupancy := 0 }

def clear : Control Unit := do clearIn (← get).base

end Control

end PioBlock
