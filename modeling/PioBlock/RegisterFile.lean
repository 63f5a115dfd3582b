import PioBlock.MaskedWrite
import PioBlock.Numeral

/-! A register file is a run of registers from a base address on. Each register has a kind,
which says what a write from the bus leaves in it; the owner of the file stores values past
that rule. -/

namespace PioBlock

/-- How a register takes a write from the bus. -/
inductive RegisterKind where
  | readWrite
  | readOnly
  | writeOneToClear
  | writeOnly
deriving DecidableEq, Repr

/-- The value that a write leaves: read-only registers keep theirs, and in a register of
flags the written ones clear. -/
def RegisterKind.store (kind : RegisterKind) (write : MaskedWrite) (old : Word) : Word :=
  match kind with
  | .readWrite | .writeOnly => write.apply old
  | .readOnly => old
  | .writeOneToClear => old &&& ~~~(write.apply 0)

theorem RegisterKind.store_writeOneToClear (write : MaskedWrite) (old : Word) :
    RegisterKind.store .writeOneToClear write old = old &&& ~~~(write.bits &&& write.mask) := by
  cases h : write.toggle <;> simp [RegisterKind.store, MaskedWrite.apply, h]

structure RegisterInfo where
  label : String
  kind : RegisterKind
  reset : Word
  description : String
deriving DecidableEq, Repr

structure Register extends RegisterInfo where
  value : Word
deriving DecidableEq, Repr

namespace Register

def ofInfo (info : RegisterInfo) : Register := { info with value := info.reset }

def write (r : Register) (w : MaskedWrite) : Register := { r with value := r.kind.store w r.value }

end Register

/-- Why a block refuses an access: it has no such register, or it was told to fail. -/
inductive BlockFault where
  | outside (index : Nat) (base : Word)
  | planned (message : String)
deriving DecidableEq, Repr

def BlockFault.message : BlockFault → String
  | .outside index base => s!"register {index} outside block at {Numeral.hex 8 base.toNat}"
  | .planned message => message

structure RegisterFile where
  base : Word
  registers : List Register
deriving DecidableEq, Repr

namespace RegisterFile

def ofInfos (base : Word) (infos : List RegisterInfo) : RegisterFile :=
  ⟨base, infos.map Register.ofInfo⟩

def size (f : RegisterFile) : Nat := f.registers.length

def value? (f : RegisterFile) (index : Nat) : Option Word := f.registers[index]?.map (·.value)

def info? (f : RegisterFile) (index : Nat) : Option RegisterInfo :=
  f.registers[index]?.map (·.toRegisterInfo)

/-- Changes register `index`; a file that has no such register refuses. -/
def update (f : RegisterFile) (index : Nat) (change : Register → Register) :
    Except BlockFault RegisterFile :=
  match f.registers[index]? with
  | some r => .ok { f with registers := f.registers.set index (change r) }
  | none => .error (.outside index f.base)

/-- Stores a word whatever the kind of the register. -/
def store (f : RegisterFile) (index : Nat) (value : Word) : Except BlockFault RegisterFile :=
  f.update index ({ · with value := value })

def read (f : RegisterFile) (index : Nat) : Except BlockFault Word :=
  match f.value? index with
  | some value => .ok value
  | none => .error (.outside index f.base)

def write (f : RegisterFile) (index : Nat) (w : MaskedWrite) : Except BlockFault RegisterFile :=
  f.update index (·.write w)

theorem write_size {f g : RegisterFile} {index : Nat} {w : MaskedWrite}
    (h : f.write index w = .ok g) : g.size = f.size := by
  unfold write update at h
  split at h <;> cases h
  simp [size]

def reset (f : RegisterFile) : RegisterFile :=
  { f with registers := f.registers.map fun r => Register.ofInfo r.toRegisterInfo }

/-- The label of a register that has no name: the base and the byte offset. -/
def fallbackLabel (base : Word) (index : Nat) : String :=
  s!"{Numeral.hex 8 base.toNat}+{Numeral.hex 3 (4 * index)}"

def label (f : RegisterFile) (index : Nat) : String :=
  match f.info? index with
  | some info => info.label
  | none => fallbackLabel f.base index

/-- The registers whose words differ from those of `old`, with the words they now hold. -/
def changesSince (f old : RegisterFile) : List (Nat × Word) :=
  (f.registers.zip old.registers).zipIdx.filterMap fun ((now, before), index) =>
    if now.value = before.value then none else some (index, now.value)

end RegisterFile

end PioBlock
