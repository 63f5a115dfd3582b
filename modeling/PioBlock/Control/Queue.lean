import PioBlock.Control.Start

/-! The queues of a state machine: data goes in at its TX end and out at its RX end,
and the block reports for each queue whether it is full or empty and how many words it holds. -/

namespace PioBlock.Control

/-- Puts a word into the TX queue, room or not. -/
def put (sm : StateMachine) (data : Word) : Control Unit := writeRegister (.txf sm) data

/-- Takes a word from the RX queue, data or not. -/
def take (sm : StateMachine) : Control Word := readRegister (.rxf sm)

def status (flags : Field) (sm : StateMachine) : Control Bool := do
  return (← readRegister .fstat).getLsbD (flags.lsb + sm.val)

def isTxFull : StateMachine → Control Bool := status Layout.txFull
def isTxEmpty : StateMachine → Control Bool := status Layout.txEmpty
def isRxFull : StateMachine → Control Bool := status Layout.rxFull
def isRxEmpty : StateMachine → Control Bool := status Layout.rxEmpty

def txLevel (sm : StateMachine) : Control Word := do
  return (Layout.txLevel sm).extract (← readRegister .flevel)

def rxLevel (sm : StateMachine) : Control Word := do
  return (Layout.rxLevel sm).extract (← readRegister .flevel)

def putBlocking (polls : Nat) (sm : StateMachine) (data : Word) : Control Unit := do
  pollUntil (do return !(← isTxFull sm)) polls
  put sm data

def takeBlocking (polls : Nat) (sm : StateMachine) : Control Word := do
  pollUntil (do return !(← isRxEmpty sm)) polls
  take sm

/-- The instruction that takes one word off the TX queue: with automatic pull, shifting out a
whole word makes the shift register refill; without, a pull does. -/
def drainInstruction (shiftctrl : Word) : Instruction :=
  if Layout.autopull.isSet shiftctrl then .out .null 32 else .pull false false

/-- Executes instructions that take words off the TX queue until it is empty. -/
def drain (polls : Nat) (sm : StateMachine) : Control Unit := do
  let i := drainInstruction (← readRegister (.machine sm .shiftctrl))
  pollUntil (do
    if ← isTxEmpty sm then return true
    execute sm i
    return false) polls

end PioBlock.Control
