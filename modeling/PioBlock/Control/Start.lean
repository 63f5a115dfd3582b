import PioBlock.Handle

/-! Starting and stopping state machines. Sets of them are enabled, disabled and restarted by
one write to `CTRL` through the alias that touches only their bits. Initialising a state machine
is a fixed sequence of writes: disable it, configure it, empty its queues, clear its flags,
restart it and its divider, and send it to its first instruction. -/

namespace PioBlock.Control

def enable (machines : MachineSet) (on : Bool) : Control Unit :=
  writeThrough (if on then .set else .clear) .ctrl (Layout.smEnable.place machines.word)

def restart (machines : MachineSet) : Control Unit :=
  writeThrough .set .ctrl (Layout.smRestart.place machines.word)

def restartDividers (machines : MachineSet) : Control Unit :=
  writeThrough .set .ctrl (Layout.clkdivRestart.place machines.word)

/-- Enables the members of a set and restarts their dividers in one write. -/
def enableInSync (machines : MachineSet) : Control Unit :=
  writeThrough .set .ctrl
    (Layout.clkdivRestart.place machines.word ||| Layout.smEnable.place machines.word)

def configWords (sm : StateMachine) (c : Config) : List (PioRegister × Word) :=
  [(.machine sm .clkdiv, c.clkdiv), (.machine sm .execctrl, c.execctrl),
    (.machine sm .shiftctrl, c.shiftctrl), (.machine sm .pinctrl, c.pinctrl)]

def configure (sm : StateMachine) (c : Config) : Control Unit := do
  let h ← get
  transact (.writeAll ((configWords sm c).map fun (r, word) => (h.address r, word)))

def execute (sm : StateMachine) (i : Instruction) : Control Unit :=
  writeRegister (.machine sm .instr) (i.setWidth 32)

def isStalled (sm : StateMachine) : Control Bool := do
  return Layout.execStalled.isSet (← readRegister (.machine sm .execctrl))

/-- Executes an instruction and waits until it is no longer stalled. -/
def executeBlocking (polls : Nat) (sm : StateMachine) (i : Instruction) : Control Unit := do
  execute sm i
  pollUntil (do return !(← isStalled sm)) polls

def programCounter (sm : StateMachine) : Control Nat := do
  return (Layout.addrPc.extract (← readRegister (.machine sm .addr))).toNat

/-- Empties both queues of a state machine by switching their join there and back. -/
def clearQueues (sm : StateMachine) : Control Unit := do
  writeThrough .toggle (.machine sm .shiftctrl) Layout.fjoinRx.mask
  writeThrough .toggle (.machine sm .shiftctrl) Layout.fjoinRx.mask

def debugFlags (sm : StateMachine) : Word :=
  Layout.txStall.place (MachineSet.word sm.single) |||
  Layout.txOver.place (MachineSet.word sm.single) |||
  Layout.rxUnder.place (MachineSet.word sm.single) |||
  Layout.rxStall.place (MachineSet.word sm.single)

/-- Brings a state machine to a known state, disabled and about to execute slot `pc`. -/
def initialise (sm : StateMachine) (pc : Slot) (c : Config) : Control Unit := do
  enable sm.single false
  configure sm c
  clearQueues sm
  writeRegister .fdebug (debugFlags sm)
  restart sm.single
  restartDividers sm.single
  execute sm (.jmp pc.val)

end PioBlock.Control
