import PioBlock.Control.Queue
import PioBlock.Control.Pins
import PioBlock.Control.Adjust
import PioBlock.Control.Claim
import PioBlock.Control.Load

/-! An operation names what a caller asks of a handle, with the numbers as they come. Performing
it checks those numbers, the state machine before all others, and then does what is asked. -/

namespace PioBlock

inductive Operation where
  | configure (sm : Nat) (config : Config)
  | initialise (sm pc : Nat) (config : Option Config)
  | setEnabled (sm : Nat) (on : Bool)
  | setMaskEnabled (mask : Nat) (on : Bool)
  | restartMask (mask : Nat)
  | restartDividersMask (mask : Nat)
  | enableMaskInSync (mask : Nat)
  | restart (sm : Nat)
  | restartDivider (sm : Nat)
  | execute (sm : Nat) (instruction : Instruction)
  | isStalled (sm : Nat)
  | executeBlocking (sm : Nat) (instruction : Instruction)
  | programCounter (sm : Nat)
  | put (sm : Nat) (data : Word)
  | take (sm : Nat)
  | isTxFull (sm : Nat)
  | isTxEmpty (sm : Nat)
  | isRxFull (sm : Nat)
  | isRxEmpty (sm : Nat)
  | txLevel (sm : Nat)
  | rxLevel (sm : Nat)
  | putBlocking (sm : Nat) (data : Word)
  | takeBlocking (sm : Nat)
  | drain (sm : Nat)
  | clearQueues (sm : Nat)
  | setPins (sm : Nat) (values : Word)
  | setPinsMasked (sm : Nat) (values mask : Word)
  | setPindirsMasked (sm : Nat) (directions mask : Word)
  | setConsecutivePindirs (sm base count : Nat) (isOut : Bool)
  | adjustWrap (sm target wrap : Nat)
  | adjustOutPins (sm base count : Nat)
  | adjustSetPins (sm base count : Nat)
  | adjustInPins (sm base : Nat)
  | adjustSidesetPins (sm base : Nat)
  | adjustClkdiv (sm : Nat) (int : BitVec 16) (frac : BitVec 8)
  | claim (sm : Nat)
  | claimMask (mask : Nat)
  | unclaim (sm : Nat)
  | claimUnused (required : Bool)
  | isClaimed (sm : Nat)
  | canLoadAnywhere (program : Program)
  | canLoad (program : Program) (offset : Option Nat)
  | load (program : Program) (offset : Option Nat)
  | unload (program : Program) (offset : Nat)
  | clear
  | allocate (request : SlotRequest) (checkOnly : Bool)
  | loadInto (base : Word) (program : Program) (offset : Option Nat)
  | clearIn (base : Word)
deriving DecidableEq, Repr

inductive Answer where
  | done
  | truth (b : Bool)
  | word (w : Word)
  | number (n : Nat)
  | maybe (n : Option Nat)
deriving DecidableEq, Repr

namespace Operation

def machine (sm : Nat) : Control StateMachine :=
  match StateMachine.ofNat? sm with
  | some sm => pure sm
  | none => Control.refuse (.argument (.stateMachine sm))

theorem machine_val (sm : StateMachine) : machine sm.val = pure sm := by
  rw [machine, StateMachine.ofNat?_val]

theorem machine_of_not_lt {n : Nat} (large : ¬ n < 4) :
    machine n = Control.refuse (.argument (.stateMachine n)) := by
  rw [machine, StateMachine.ofNat?, dif_neg large]

def machines (mask : Nat) : Control MachineSet :=
  match MachineSet.ofNat? mask with
  | some s => pure s
  | none => Control.refuse (.argument (.machineSet mask))

theorem machines_of_lt {mask : Nat} (small : mask < 16) :
    machines mask = pure (BitVec.ofNat 4 mask) := by
  rw [machines, MachineSet.ofNat?, if_pos small]

theorem machines_of_not_lt {mask : Nat} (large : ¬ mask < 16) :
    machines mask = Control.refuse (.argument (.machineSet mask)) := by
  rw [machines, MachineSet.ofNat?, if_neg large]

/-- A number below 32, refused for the given reason otherwise. -/
def below32 (reason : Nat → ArgumentError) (n : Nat) : Control (Fin 32) :=
  if h : n < 32 then pure ⟨n, h⟩ else Control.refuse (.argument (reason n))

theorem below32_val (reason : Nat → ArgumentError) (n : Fin 32) :
    below32 reason n.val = pure n := by simp [below32]

def acting (c : Control Unit) : Control Answer := do
  c
  return .done

/-- Performs the operation, polling a status at most `polls` times. -/
def perform (polls : Nat) : Operation → Control Answer
  | .configure sm config => do acting (Control.configure (← machine sm) config)
  | .initialise sm pc config => do
    let sm ← machine sm
    let pc ← below32 .initialPc pc
    acting (Control.initialise sm pc (config.getD .reset))
  | .setEnabled sm on => do acting (Control.enable (← machine sm).single on)
  | .setMaskEnabled mask on => do acting (Control.enable (← machines mask) on)
  | .restartMask mask => do acting (Control.restart (← machines mask))
  | .restartDividersMask mask => do acting (Control.restartDividers (← machines mask))
  | .enableMaskInSync mask => do acting (Control.enableInSync (← machines mask))
  | .restart sm => do acting (Control.restart (← machine sm).single)
  | .restartDivider sm => do acting (Control.restartDividers (← machine sm).single)
  | .execute sm i => do acting (Control.execute (← machine sm) i)
  | .isStalled sm => do return .truth (← Control.isStalled (← machine sm))
  | .executeBlocking sm i => do acting (Control.executeBlocking polls (← machine sm) i)
  | .programCounter sm => do return .number (← Control.programCounter (← machine sm))
  | .put sm data => do acting (Control.put (← machine sm) data)
  | .take sm => do return .word (← Control.take (← machine sm))
  | .isTxFull sm => do return .truth (← Control.isTxFull (← machine sm))
  | .isTxEmpty sm => do return .truth (← Control.isTxEmpty (← machine sm))
  | .isRxFull sm => do return .truth (← Control.isRxFull (← machine sm))
  | .isRxEmpty sm => do return .truth (← Control.isRxEmpty (← machine sm))
  | .txLevel sm => do return .word (← Control.txLevel (← machine sm))
  | .rxLevel sm => do return .word (← Control.rxLevel (← machine sm))
  | .putBlocking sm data => do acting (Control.putBlocking polls (← machine sm) data)
  | .takeBlocking sm => do return .word (← Control.takeBlocking polls (← machine sm))
  | .drain sm => do acting (Control.drain polls (← machine sm))
  | .clearQueues sm => do acting (Control.clearQueues (← machine sm))
  | .setPins sm values => do acting (Control.draw (← machine sm) (Stroke.allPins values))
  | .setPinsMasked sm values mask => do
    acting (Control.draw (← machine sm) (Stroke.masked .pins values mask))
  | .setPindirsMasked sm directions mask => do
    acting (Control.draw (← machine sm) (Stroke.masked .pindirs directions mask))
  | .setConsecutivePindirs sm base count isOut => do
    let sm ← machine sm
    let base ← below32 .pin base
    if 32 < count then Control.refuse (.argument (.pinCount count))
    else acting (Control.draw sm (Stroke.consecutive base.val count isOut))
  | .adjustWrap sm target wrap => do acting (Control.adjustWrap (← machine sm) target wrap)
  | .adjustOutPins sm base count => do acting (Control.adjustOutPins (← machine sm) base count)
  | .adjustSetPins sm base count => do acting (Control.adjustSetPins (← machine sm) base count)
  | .adjustInPins sm base => do
    let sm ← machine sm
    acting (Control.adjustInPins sm (← below32 .pin base))
  | .adjustSidesetPins sm base => do
    let sm ← machine sm
    acting (Control.adjustSidesetPins sm (← below32 .pin base))
  | .adjustClkdiv sm int frac => do acting (Control.adjustClkdiv (← machine sm) int frac)
  | .claim sm => do acting (Control.claim (← machine sm).single)
  | .claimMask mask => do acting (Control.claim (← machines mask))
  | .unclaim sm => do acting (Control.unclaim (← machine sm))
  | .claimUnused required => do return .maybe ((← Control.claimUnused required).map (·.val))
  | .isClaimed sm => do return .truth (← Control.isClaimed (← machine sm))
  | .canLoadAnywhere p => do return .truth (← Control.canLoadAnywhere p)
  | .canLoad p offset => do return .truth (← Control.canLoad p offset)
  | .load p offset => do return .number (← Control.load p offset)
  | .unload p offset => do acting (Control.unload p offset)
  | .clear => acting Control.clear
  | .allocate r checkOnly => do return .maybe ((← Control.allocate r checkOnly).map (·.offset))
  | .loadInto base p offset => do return .number (← Control.loadInto base p offset)
  | .clearIn base => acting (Control.clearIn base)

end Operation

end PioBlock
