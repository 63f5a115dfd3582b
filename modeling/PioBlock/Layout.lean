import PioBlock.RegisterFile
import PioBlock.StateMachine

/-! The register map of a PIO block. `PioRegister` names every register; `index` is its place
in the block and `all` lists them in address order, so that the register at a place is found
by looking it up in the list. -/

namespace PioBlock

abbrev Slot := Fin 32

namespace Layout

/-- How many blocks, state machines and slots there are, how deep a queue is, and how many
pins one SET instruction drives. -/
def blockCount : Nat := 2
def machineCount : Nat := 4
def slotCount : Nat := 32
def queueDepth : Nat := 4
def setWindow : Nat := 5

def blockBase? (pio : Nat) : Option Word :=
  match pio with
  | 0 => some 0x50200000
  | 1 => some 0x50300000
  | _ => none

def address (base : Word) (index : Nat) : Word := base + BitVec.ofNat 32 (4 * index)

def clkdivReset : Word := 0x00010000
def execctrlReset : Word := 0x0001f000
def shiftctrlReset : Word := 0x000c0000
def pinctrlReset : Word := 0x14000000
def fstatReset : Word := 0x0f000f00

/-- The shape of a block as it reports it: slots, state machines, queue depth. -/
def cfginfo : Word := BitVec.ofNat 32 (slotCount <<< 16 ||| machineCount <<< 8 ||| queueDepth)

/-- The fields of `CTRL`, one bit per state machine. -/
def clkdivRestart : Field := .of 8 4
def smRestart : Field := .of 4 4
def smEnable : Field := .of 0 4

/-- The fields of `FSTAT`, one bit per state machine. -/
def txEmpty : Field := .of 24 4
def txFull : Field := .of 16 4
def rxEmpty : Field := .of 8 4
def rxFull : Field := .of 0 4

/-- The fields of `FDEBUG`, one bit per state machine. -/
def txStall : Field := .of 24 4
def txOver : Field := .of 16 4
def rxUnder : Field := .of 8 4
def rxStall : Field := .of 0 4

/-- The level of the TX queue of state machine `sm` in `FLEVEL`, where `sm` may be any number. -/
def txLevel? (sm : Nat) : Except SpanFault Field := Field.ofSpan (8 * sm) 4

def rxLevel? (sm : Nat) : Except SpanFault Field := Field.ofSpan (8 * sm + 4) 4

def txLevel (sm : StateMachine) : Field := ⟨8 * sm.val, 4, by decide, by omega⟩
def rxLevel (sm : StateMachine) : Field := ⟨8 * sm.val + 4, 4, by decide, by omega⟩

theorem txLevel?_eq_ok (sm : StateMachine) : txLevel? sm.val = .ok (txLevel sm) :=
  Field.ofSpan_eq_ok (txLevel sm)

theorem rxLevel?_eq_ok (sm : StateMachine) : rxLevel? sm.val = .ok (rxLevel sm) :=
  Field.ofSpan_eq_ok (rxLevel sm)

/-- The fields of `SMx_CLKDIV`: the divider's integer part, where 0 means 65536, and its 256ths. -/
def clkdivInt : Field := .of 16 16
def clkdivFrac : Field := .of 8 8

/-- The fields of `SMx_EXECCTRL`. -/
def execStalled : Field := .of 31 1
def sideEnable : Field := .of 30 1
def sidePindir : Field := .of 29 1
def jmpPin : Field := .of 24 5
def outEnSel : Field := .of 19 5
def inlineOutEn : Field := .of 18 1
def outSticky : Field := .of 17 1
def wrapTop : Field := .of 12 5
def wrapBottom : Field := .of 7 5
def statusSel : Field := .of 4 1
def statusN : Field := .of 0 4

/-- The fields of `SMx_SHIFTCTRL`; a threshold of 0 means 32. -/
def fjoinRx : Field := .of 31 1
def fjoinTx : Field := .of 30 1
def pullThresh : Field := .of 25 5
def pushThresh : Field := .of 20 5
def outShiftdir : Field := .of 19 1
def inShiftdir : Field := .of 18 1
def autopull : Field := .of 17 1
def autopush : Field := .of 16 1

/-- The fields of `SMx_PINCTRL`. -/
def sidesetCount : Field := .of 29 3
def setCount : Field := .of 26 3
def outCount : Field := .of 20 6
def inBase : Field := .of 15 5
def sidesetBase : Field := .of 10 5
def setBase : Field := .of 5 5
def outBase : Field := .of 0 5

def addrPc : Field := .of 0 5

end Layout

inductive MachineRegister where
  | clkdiv
  | execctrl
  | shiftctrl
  | addr
  | instr
  | pinctrl
deriving DecidableEq, Repr

namespace MachineRegister

def all : List MachineRegister := [.clkdiv, .execctrl, .shiftctrl, .addr, .instr, .pinctrl]

def offset : MachineRegister → Nat
  | .clkdiv => 0
  | .execctrl => 1
  | .shiftctrl => 2
  | .addr => 3
  | .instr => 4
  | .pinctrl => 5

def name : MachineRegister → String
  | .clkdiv => "CLKDIV"
  | .execctrl => "EXECCTRL"
  | .shiftctrl => "SHIFTCTRL"
  | .addr => "ADDR"
  | .instr => "INSTR"
  | .pinctrl => "PINCTRL"

def kind : MachineRegister → RegisterKind
  | .addr => .readOnly
  | _ => .readWrite

def reset : MachineRegister → Word
  | .clkdiv => Layout.clkdivReset
  | .execctrl => Layout.execctrlReset
  | .shiftctrl => Layout.shiftctrlReset
  | .pinctrl => Layout.pinctrlReset
  | .addr | .instr => 0

def description : MachineRegister → String
  | .clkdiv => "clock divider"
  | .execctrl => "execution control"
  | .shiftctrl => "shift control"
  | .addr => "program counter"
  | .instr => "instruction override"
  | .pinctrl => "pin control"

/-- The place in the block of this register of state machine `sm`, where `sm` may be any number. -/
def indexFor (r : MachineRegister) (sm : Nat) : Nat := 50 + 6 * sm + r.offset

end MachineRegister

inductive PioRegister where
  | ctrl
  | fstat
  | fdebug
  | flevel
  | txf (sm : StateMachine)
  | rxf (sm : StateMachine)
  | irq
  | irqForce
  | inputSyncBypass
  | dbgPadout
  | dbgPadoe
  | dbgCfginfo
  | instrMem (slot : Slot)
  | machine (sm : StateMachine) (register : MachineRegister)
  | intr
  | lineEnable (line : Fin 2)
  | lineForce (line : Fin 2)
  | lineStatus (line : Fin 2)
deriving DecidableEq, Repr

namespace PioRegister

def index : PioRegister → Nat
  | .ctrl => 0
  | .fstat => 1
  | .fdebug => 2
  | .flevel => 3
  | .txf sm => 4 + sm.val
  | .rxf sm => 8 + sm.val
  | .irq => 12
  | .irqForce => 13
  | .inputSyncBypass => 14
  | .dbgPadout => 15
  | .dbgPadoe => 16
  | .dbgCfginfo => 17
  | .instrMem slot => 18 + slot.val
  | .machine sm register => register.indexFor sm.val
  | .intr => 74
  | .lineEnable line => 75 + 3 * line.val
  | .lineForce line => 76 + 3 * line.val
  | .lineStatus line => 77 + 3 * line.val

def all : List PioRegister :=
  [.ctrl, .fstat, .fdebug, .flevel] ++ StateMachine.all.map .txf ++ StateMachine.all.map .rxf ++
  [.irq, .irqForce, .inputSyncBypass, .dbgPadout, .dbgPadoe, .dbgCfginfo] ++
  (List.finRange 32).map .instrMem ++
  StateMachine.all.flatMap (fun sm => MachineRegister.all.map (.machine sm)) ++
  [.intr, .lineEnable 0, .lineForce 0, .lineStatus 0, .lineEnable 1, .lineForce 1, .lineStatus 1]

def count : Nat := 81

theorem length_all : all.length = count := by decide

def ofIndex? (index : Nat) : Option PioRegister := all[index]?

theorem ofIndex?_index (r : PioRegister) : ofIndex? r.index = some r := by
  cases r with
  | txf sm => revert sm; decide
  | rxf sm => revert sm; decide
  | instrMem slot => revert slot; decide
  | machine sm register => revert sm; cases register <;> decide
  | lineEnable line => revert line; decide
  | lineForce line => revert line; decide
  | lineStatus line => revert line; decide
  | _ => rfl

theorem index_injective {r s : PioRegister} (h : r.index = s.index) : r = s := by
  have hr := ofIndex?_index r
  rw [h, ofIndex?_index s] at hr
  exact (Option.some.inj hr).symm

theorem index_lt (r : PioRegister) : r.index < count := by
  have h := ofIndex?_index r
  rw [ofIndex?, List.getElem?_eq_some_iff] at h
  rw [← length_all]
  exact h.1

def name : PioRegister → String
  | .ctrl => "CTRL"
  | .fstat => "FSTAT"
  | .fdebug => "FDEBUG"
  | .flevel => "FLEVEL"
  | .txf sm => s!"TXF{sm.val}"
  | .rxf sm => s!"RXF{sm.val}"
  | .irq => "IRQ"
  | .irqForce => "IRQ_FORCE"
  | .inputSyncBypass => "INPUT_SYNC_BYPASS"
  | .dbgPadout => "DBG_PADOUT"
  | .dbgPadoe => "DBG_PADOE"
  | .dbgCfginfo => "DBG_CFGINFO"
  | .instrMem slot => s!"INSTR_MEM{slot.val}"
  | .machine sm register => s!"SM{sm.val}_{register.name}"
  | .intr => "INTR"
  | .lineEnable line => s!"IRQ{line.val}_INTE"
  | .lineForce line => s!"IRQ{line.val}_INTF"
  | .lineStatus line => s!"IRQ{line.val}_INTS"

def kind : PioRegister → RegisterKind
  | .ctrl | .inputSyncBypass | .lineEnable _ | .lineForce _ => .readWrite
  | .fstat | .flevel | .rxf _ | .dbgPadout | .dbgPadoe | .dbgCfginfo | .intr | .lineStatus _ =>
    .readOnly
  | .fdebug | .irq => .writeOneToClear
  | .txf _ | .irqForce | .instrMem _ => .writeOnly
  | .machine _ register => register.kind

def reset : PioRegister → Word
  | .fstat => Layout.fstatReset
  | .dbgCfginfo => Layout.cfginfo
  | .machine _ register => register.reset
  | _ => 0

def description : PioRegister → String
  | .ctrl => "state machine enables and restart strobes"
  | .fstat => "FIFO full/empty status"
  | .fdebug => "sticky FIFO stall and overflow flags"
  | .flevel => "FIFO levels"
  | .txf _ => "TX FIFO write port"
  | .rxf _ => "RX FIFO read port"
  | .irq => "state machine IRQ flags"
  | .irqForce => "IRQ flag force"
  | .inputSyncBypass => "input synchronizer bypass"
  | .dbgPadout => "pad output values"
  | .dbgPadoe => "pad output enables"
  | .dbgCfginfo => "hardware configuration"
  | .instrMem _ => "instruction memory slot"
  | .machine _ register => register.description
  | .intr | .lineStatus _ => "interrupt status"
  | .lineEnable _ => "interrupt enable"
  | .lineForce _ => "interrupt force"

def info (pio : Nat) (r : PioRegister) : RegisterInfo :=
  ⟨s!"PIO{pio}_{r.name}", r.kind, r.reset, r.description⟩

end PioRegister

namespace RegisterFile

/-- The registers of block `pio` mapped at `base`, at reset. -/
def pioAt (pio : Nat) (base : Word) : RegisterFile :=
  ofInfos base (PioRegister.all.map (·.info pio))

theorem size_pioAt (pio : Nat) (base : Word) : (pioAt pio base).size = PioRegister.count := by
  simp [size, pioAt, ofInfos, PioRegister.length_all]

def pio? (pio : Nat) : Option RegisterFile := (Layout.blockBase? pio).map (pioAt pio)

end RegisterFile

end PioBlock
