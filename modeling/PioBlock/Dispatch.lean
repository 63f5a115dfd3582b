import PioBlock.Procedure

/-! A dispatch is an ordered list of blocks. A byte address belongs to the first block that
holds it, at any of its four aliases: the alias bits of the distance from the base are ignored,
and what is left selects a register. -/

namespace PioBlock

/-- A register file behind a policy of its own: how many registers it claims in the address
space, what it tells about them, and how it serves an access. -/
class RegisterBlock (β : Type) where
  file : β → RegisterFile
  setFile : β → RegisterFile → β
  span : β → Nat
  info? : β → Nat → Option RegisterInfo
  read : Nat → β → Except BlockFault Word × β
  write : Nat → MaskedWrite → β → Except BlockFault Unit × β

instance : RegisterBlock RegisterFile where
  file f := f
  setFile _ f := f
  span := RegisterFile.size
  info? := RegisterFile.info?
  read index f := (f.read index, f)
  write index w f :=
    match f.write index w with
    | .ok g => (.ok (), g)
    | .error fault => (.error fault, f)

namespace RegisterBlock

variable {β : Type} [RegisterBlock β]

def select (base address : Word) : Nat := (((address - base) &&& ~~~Alias.selector) >>> 2).toNat

def claims (block : β) (address : Word) : Bool :=
  decide (select (file block).base address < span block)

def label (block : β) (index : Nat) : String :=
  match info? block index with
  | some info => info.label
  | none => RegisterFile.fallbackLabel (file block).base index

end RegisterBlock

/-- Blocks in the order in which they are tried. -/
structure Dispatch (β : Type) where
  blocks : List β
deriving DecidableEq, Repr

/-- A register found in a dispatch: the position of its block, the block, and its index there. -/
structure Located (β : Type) where
  position : Nat
  block : β
  index : Nat

namespace Dispatch

variable {β : Type} [RegisterBlock β]

/-- The first of `blocks` that claims the address, counting positions from `position` on. -/
def locateFrom (address : Word) (position : Nat) : List β → Option (Located β)
  | [] => none
  | block :: rest =>
    if RegisterBlock.claims block address then
      some ⟨position, block, RegisterBlock.select (RegisterBlock.file block).base address⟩
    else locateFrom address (position + 1) rest

def locate (d : Dispatch β) (address : Word) : Except RegisterError (Located β) :=
  if address &&& 3 = 0 then
    match locateFrom address 0 d.blocks with
    | some found => .ok found
    | none => .error (.unmapped address)
  else .error (.unaligned address)

def provides (d : Dispatch β) (address : Word) : Bool := (d.locate address).isOk

def label (d : Dispatch β) (address : Word) : Except RegisterError String :=
  (d.locate address).map fun found => RegisterBlock.label found.block found.index

def replace (d : Dispatch β) (position : Nat) (block : β) : Dispatch β :=
  ⟨d.blocks.set position block⟩

def read (address : Word) (d : Dispatch β) : Except RegisterError Word × Dispatch β :=
  match d.locate address with
  | .error e => (.error e, d)
  | .ok found =>
    let answered := RegisterBlock.read found.index found.block
    (answered.1.mapError (.faulted address), d.replace found.position answered.2)

def write (address : Word) (change : MaskedWrite) (d : Dispatch β) :
    Except RegisterError Unit × Dispatch β :=
  match d.locate address with
  | .error e => (.error e, d)
  | .ok found =>
    let answered := RegisterBlock.write found.index change found.block
    (answered.1.mapError (.faulted address), d.replace found.position answered.2)

instance : RegisterSpace (Dispatch β) := ⟨read, write⟩

def block? (d : Dispatch β) (position : Nat) : Option β := d.blocks[position]?

def file? (d : Dispatch β) (position : Nat) : Option RegisterFile :=
  (d.block? position).map RegisterBlock.file

/-- Changes the register file of the block at a position, past its policy. A position or a
register that does not exist leaves everything as it was. -/
def storeAt (d : Dispatch β) (position index : Nat) (value : Word) : Dispatch β :=
  match d.block? position with
  | none => d
  | some block =>
    match (RegisterBlock.file block).store index value with
    | .ok file => d.replace position (RegisterBlock.setFile block file)
    | .error _ => d

def storeAll (d : Dispatch β) (stores : List (Nat × Nat × Word)) : Dispatch β :=
  stores.foldl (fun d store => d.storeAt store.1 store.2.1 store.2.2) d

/-- The stored words that differ from those of `old`: block, register, new word. -/
def changesSince (d old : Dispatch β) : List (Nat × Nat × Word) :=
  (d.blocks.zip old.blocks).zipIdx.flatMap fun ((now, before), position) =>
    ((RegisterBlock.file now).changesSince (RegisterBlock.file before)).map fun (index, value) =>
      (position, index, value)

end Dispatch

end PioBlock
