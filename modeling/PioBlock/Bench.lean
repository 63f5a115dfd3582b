import PioBlock.Dispatch

/-! A bench block stands in for hardware: a register file whose reads may follow a script, whose
accesses may be told to fail, and which may claim more or fewer registers than it stores. -/

namespace PioBlock

inductive Direction where
  | read
  | write
deriving DecidableEq, Repr

/-- A fault to come: after `skip` accesses of its kind to the register, `count` of them fail. -/
structure PlannedFault where
  register : Nat
  direction : Direction
  skip : Nat
  count : Nat
  message : String
deriving DecidableEq, Repr

namespace PlannedFault

def concerns (f : PlannedFault) (register : Nat) (direction : Direction) : Bool :=
  f.register == register && f.direction == direction

/-- Goes through the plans for one access. Each one still to be skipped counts the access and
lets it pass; the first one due makes it fail. -/
def take (register : Nat) (direction : Direction) :
    List PlannedFault → Option String × List PlannedFault
  | [] => (none, [])
  | f :: rest =>
    let later := take register direction rest
    if f.concerns register direction then
      if 0 < f.skip then (later.1, { f with skip := f.skip - 1 } :: later.2)
      else if 0 < f.count then (some f.message, { f with count := f.count - 1 } :: rest)
      else (later.1, f :: later.2)
    else (later.1, f :: later.2)

end PlannedFault

/-- A register file on the bench. -/
structure BenchBlock where
  file : RegisterFile
  span : Option Nat
  isLabelled : Bool
  scripts : List (Nat × List Word)
  faults : List PlannedFault
deriving DecidableEq, Repr

namespace BenchBlock

def plain (file : RegisterFile) : BenchBlock := ⟨file, none, true, [], []⟩

def script (b : BenchBlock) (register : Nat) (values : List Word) : BenchBlock :=
  { b with scripts := (register, values) :: b.scripts.filter (·.1 != register) }

def plan (b : BenchBlock) (fault : PlannedFault) : BenchBlock :=
  { b with faults := b.faults ++ [fault] }

def takeScripted (register : Nat) : List (Nat × List Word) → Option Word × List (Nat × List Word)
  | [] => (none, [])
  | (r, values) :: rest =>
    if r = register then
      match values with
      | [] => (none, (r, []) :: rest)
      | value :: values => (some value, (r, values) :: rest)
    else
      let later := takeScripted register rest
      (later.1, (r, values) :: later.2)

/-- Stores the next scripted value of a register, if there is one, past the rule of its kind. -/
def follow (b : BenchBlock) (register : Nat) : BenchBlock :=
  match takeScripted register b.scripts with
  | (none, _) => b
  | (some value, scripts) =>
    match b.file.store register value with
    | .ok file => { b with file, scripts }
    | .error _ => { b with scripts }

def meetFaults (b : BenchBlock) (register : Nat) (direction : Direction) :
    Option String × BenchBlock :=
  let met := PlannedFault.take register direction b.faults
  (met.1, { b with faults := met.2 })

/-- A script is followed first, then a planned fault is met, then the file answers. -/
def read (register : Nat) (b : BenchBlock) : Except BlockFault Word × BenchBlock :=
  match (b.follow register).meetFaults register .read with
  | (some message, b) => (.error (.planned message), b)
  | (none, b) => (b.file.read register, b)

def write (register : Nat) (w : MaskedWrite) (b : BenchBlock) : Except BlockFault Unit × BenchBlock :=
  match b.meetFaults register .write with
  | (some message, b) => (.error (.planned message), b)
  | (none, b) =>
    match b.file.write register w with
    | .ok file => (.ok (), { b with file })
    | .error fault => (.error fault, b)

instance : RegisterBlock BenchBlock where
  file := file
  setFile b file := { b with file }
  span b := b.span.getD b.file.size
  info? b index := if b.isLabelled then b.file.info? index else none
  read := read
  write := write

/-- How many accesses the scripts and plans still bear on. -/
def pendingAccesses (b : BenchBlock) : Nat :=
  b.scripts.foldr (·.2.length + ·) 0 + b.faults.foldr (fun f n => f.skip + f.count + n) 0

end BenchBlock

end PioBlock
