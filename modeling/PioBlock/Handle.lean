import PioBlock.Dispatch
import PioBlock.Setting

/-! A handle on one block knows where the block is mapped and keeps two sets: the instruction
slots that loaded programs take and the state machines that are claimed. What is done through a
handle may be refused; a caller that gives back slots which are not taken breaks the contract,
and that is no refusal but an end of its own. -/

namespace PioBlock

inductive ArgumentError where
  | stateMachine (sm : Nat)
  | machineSet (mask : Nat)
  | pin (pin : Nat)
  | pinCount (count : Nat)
  | initialPc (pc : Nat)
  | offset (offset : Nat)
  | block (pio : Nat)
  | blockCount (count : Nat)
deriving DecidableEq, Repr

def ArgumentError.message : ArgumentError → String
  | .stateMachine sm => s!"state machine {sm} out of range 0..=3"
  | .machineSet mask => s!"state machine mask {Numeral.hex 2 mask} out of range 0x0..=0xf"
  | .pin n => s!"pin {n} out of range 0..=31"
  | .pinCount count => s!"pin count {count} out of range 0..=32"
  | .initialPc pc => s!"initial pc {pc} outside instruction memory"
  | .offset n => s!"offset {n} outside instruction memory"
  | .block pio => s!"no PIO block {pio}"
  | .blockCount count => s!"pio count {count} out of range 1..={Layout.blockCount}"

inductive PioError where
  | argument (cause : ArgumentError)
  | register (cause : RegisterError)
  | config (cause : ConfigError)
  | noSpace
  | claimConflict (claimed : List Nat)
  | noUnusedStateMachine
  | originMismatch (origin offset : Nat)
deriving DecidableEq, Repr

namespace PioError

def message : PioError → String
  | .argument cause => s!"invalid argument: {cause.message}"
  | .register cause => cause.message
  | .config cause => cause.message
  | .noSpace => "no program space"
  | .claimConflict claimed =>
    let names := String.intercalate ", " (claimed.map toString)
    s!"state machines [{names}] already claimed"
  | .noUnusedStateMachine => "no unused state machine"
  | .originMismatch origin offset => s!"program origin {origin} does not match offset {offset}"

def isRegister : PioError → Bool
  | .register _ => true
  | _ => false

end PioError

/-- A breach of contract: the slots of a program that is not loaded at `offset` were to be freed
while only some of them were taken. -/
structure Breach where
  slots : Word
  offset : Nat
  occupancy : Word
deriving DecidableEq, Repr

def Breach.message (b : Breach) : String :=
  s!"deallocating slots {Numeral.hex 8 b.slots.toNat} at offset {b.offset}, but only " ++
  s!"{Numeral.hex 8 (b.occupancy &&& b.slots).toNat} of them are occupied " ++
  s!"(occupancy {Numeral.hex 8 b.occupancy.toNat})"

/-- How an operation ends without a result. It is `waiting` when a status that it polls has not
changed within the number of polls allowed. -/
inductive Failure where
  | error (cause : PioError)
  | breach (cause : Breach)
  | waiting
deriving DecidableEq, Repr

def Failure.message : Failure → String
  | .error cause => cause.message
  | .breach cause => cause.message
  | .waiting => "no change of status"

/-- A handle on a block. -/
structure Handle where
  index : Nat
  base : Word
  occupancy : Word
  claimed : MachineSet
deriving DecidableEq, Repr

namespace Handle

def at_ (index : Nat) (base : Word) : Handle := ⟨index, base, 0, 0⟩

def pio (pio : Nat) : Except PioError Handle :=
  match Layout.blockBase? pio with
  | some base => .ok (at_ pio base)
  | none => .error (.argument (.block pio))

def address (h : Handle) (r : PioRegister) : Word := Layout.address h.base r.index

end Handle

/-- One access to a register, wherever its block is mapped. -/
inductive RegisterAccess : Type → Type where
  | read : RegisterAccess Word
  | write (value : Word) : RegisterAccess Unit
  | change (w : MaskedWrite) : RegisterAccess Unit
  | writeThrough (a : Alias) (value : Word) : RegisterAccess Unit

def RegisterAccess.transaction {α : Type} : RegisterAccess α → Word → Transaction α
  | .read, address => .read address
  | .write value, address => .write address value
  | .change w, address => .change address w
  | .writeThrough a value, address => .write (address ||| a.bits) value

/-- Polls a condition until it holds, at most `polls` times, and then ends with `stop`. -/
def poll {m : Type → Type} [Monad m] (stop : m Unit) (condition : m Bool) : Nat → m Unit
  | 0 => stop
  | polls + 1 => do
    if ← condition then pure () else poll stop condition polls

/-- An operation through a handle: it changes the handle, makes accesses, and may fail. -/
abbrev Control := ExceptT Failure (StateT Handle Procedure)

namespace Control

def start {α : Type} (c : Control α) (h : Handle) : Procedure (Except Failure α × Handle) :=
  StateT.run (ExceptT.run c) h

def refuse {α : Type} (e : PioError) : Control α := throw (.error e)

def ofExcept {ε α : Type} (wrap : ε → PioError) : Except ε α → Control α
  | .ok a => pure a
  | .error e => refuse (wrap e)

/-- Makes the accesses of a transaction and keeps how it ended. -/
def attempt {α : Type} (t : Transaction α) : Control (Except RegisterError α) :=
  ExceptT.lift (StateT.lift t.run)

/-- Makes the accesses of a transaction, failing where it fails. -/
def transact {α : Type} (t : Transaction α) : Control α := do
  ofExcept .register (← attempt t)

theorem start_transact {α : Type} (t : Transaction α) (h : Handle) :
    (transact t).start h =
      t.run >>= fun outcome => pure (outcome.mapError (.error ∘ .register), h) := by
  simp only [transact, attempt, start, ExceptT.run_bind, ExceptT.run_lift, StateT.run_bind,
    StateT.run_lift, bind_assoc, map_eq_pure_bind, pure_bind]
  congr 1
  funext outcome
  cases outcome <;> rfl

def access {α : Type} (r : PioRegister) (kind : RegisterAccess α) : Control α := do
  transact (kind.transaction ((← get).address r))

def readRegister (r : PioRegister) : Control Word := access r .read

def writeRegister (r : PioRegister) (value : Word) : Control Unit := access r (.write value)

def changeRegister (r : PioRegister) (w : MaskedWrite) : Control Unit := access r (.change w)

def writeThrough (a : Alias) (r : PioRegister) (value : Word) : Control Unit :=
  access r (.writeThrough a value)

def pollSleep : Nat := 50

def pollUntil (condition : Control Bool) (polls : Nat) : Control Unit :=
  poll (throw .waiting) condition polls

theorem pollUntil_succ (condition : Control Bool) (polls : Nat) :
    pollUntil condition (polls + 1) =
      condition >>= fun holds => if holds then pure () else pollUntil condition polls := rfl

end Control

end PioBlock
