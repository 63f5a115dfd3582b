import PioBlock.Listing.Diagnostic

/-! The entries of a listing are what its lines have said so far. Each directive but `.word`
comes at most once, and that is checked before its argument is looked at; side-set comes before
the first instruction. -/

namespace PioBlock.Listing

/-- What is wrong with a line, and the column when there is one to point at. -/
structure Complaint where
  cause : Cause
  column : Option Nat
deriving DecidableEq, Repr

def Complaint.about (cause : Cause) : Complaint := ⟨cause, none⟩

/-- What has been read. An origin of `some none` was given as -1. The numbers are as they were
read; that they are those of slots is for the builder of the program to check. -/
structure Entries where
  id : Option String
  origin : Option (Option Nat)
  wrap : Option Nat
  wrapTarget : Option Nat
  sideSet : Option SideSet
  code : List Instruction
deriving DecidableEq, Repr

def readNumber (text : List Char) : Except Cause Int :=
  match Numeral.readInt? text with
  | some value => .ok value
  | none => .error (.invalidNumber (String.ofList text))

def readArgument (keyword : Keyword) (low high : Int) (argument : List Char) : Except Cause Int :=
  match words argument with
  | [] => .error (.missingArgument keyword)
  | _ :: extra :: _ => .error (.unexpectedArgument (String.ofList extra))
  | [word] => do
    let value ← readNumber word
    if low ≤ value ∧ value ≤ high then return value
    else throw (.outOfRange keyword value low high)

def toNatural (keyword : Keyword) (high value : Int) : Except Cause Nat :=
  if 0 ≤ value ∧ value ≤ high then .ok value.toNat
  else .error (.outOfRange keyword value 0 high)

def readSlot (keyword : Keyword) (argument : List Char) : Except Cause Nat := do
  toNatural keyword 31 (← readArgument keyword 0 31 argument)

/-- The flags of a side-set, at most `room` of them, added to those before. -/
def readFlags (room : Nat) (isOptional pindirs : Bool) :
    List (List Char) → Except Cause (Bool × Bool)
  | [] => .ok (isOptional, pindirs)
  | flag :: rest =>
    match room with
    | 0 => .error .tooManyFlags
    | room + 1 =>
      if flag = "opt".toList then readFlags room true pindirs rest
      else if flag = "pindirs".toList then readFlags room isOptional true rest
      else .error (.unknownFlag (String.ofList flag))

/-- A side-set: the number of its bits, then flags. -/
def readSideSet (argument : List Char) : Except Cause SideSet :=
  match words argument with
  | [] => .error (.missingArgument .sideSet)
  | count :: flags => do
    let value ← readNumber count
    let (isOptional, pindirs) ← readFlags 2 false false flags
    return ⟨← toNatural .sideSet (if isOptional then 4 else 5) value, isOptional, pindirs⟩

def wordDigits : List Char → List Char
  | '0' :: 'x' :: digits => digits
  | '0' :: 'X' :: digits => digits
  | digits => digits

/-- A number as an instruction word; `text` is what is told when it has more bits than one. -/
def toWord (text : List Char) (value : Int) : Except Cause Instruction :=
  if 0 ≤ value ∧ value < 0x10000 then .ok (BitVec.ofNat 16 value.toNat)
  else .error (.instructionOutOfRange (String.ofList text))

def readWord (text : List Char) : Except Cause Instruction :=
  match Numeral.readHex? (wordDigits text) with
  | none => .error (.invalidInstruction (String.ofList text))
  | some value => toWord text value

namespace Entries

def empty : Entries := ⟨none, none, none, none, none, []⟩

/-- Refuses a directive that has come before. -/
def once {α : Type} (keyword : Keyword) (entry : Option α) : Except Cause Unit :=
  match entry with
  | some _ => .error (.duplicate keyword)
  | none => .ok ()

def push (e : Entries) (i : Instruction) : Except Cause Entries :=
  if e.code.length = 32 then .error .tooManyInstructions
  else .ok { e with code := e.code ++ [i] }

def acceptName (e : Entries) (d : Directive) : Except Complaint Entries := do
  (once .program e.id).mapError .about
  match nameFault? d.argument with
  | some (n, fault) => throw ⟨.invalidName fault, some (d.column + n)⟩
  | none => return { e with id := some (String.ofList d.argument) }

def acceptSetting (e : Entries) (keyword : Keyword) (argument : List Char) :
    Except Cause Entries :=
  match keyword with
  | .program => .ok e
  | .origin => do
    once .origin e.origin
    let value ← readArgument .origin (-1) 31 argument
    return { e with origin := some (if 0 ≤ value then some value.toNat else none) }
  | .wrap => do
    once .wrap e.wrap
    return { e with wrap := some (← readSlot .wrap argument) }
  | .wrapTarget => do
    once .wrapTarget e.wrapTarget
    return { e with wrapTarget := some (← readSlot .wrapTarget argument) }
  | .sideSet => do
    once .sideSet e.sideSet
    if e.code.isEmpty then return { e with sideSet := some (← readSideSet argument) }
    else throw .sideSetAfterCode
  | .word => do
    let value ← readArgument .word 0 65535 argument
    e.push (← toWord argument value)

def accept (e : Entries) : Line → Except Complaint Entries
  | .nothing => .ok e
  | .word text => (do e.push (← readWord text) : Except Cause Entries).mapError .about
  | .directive d =>
    match Keyword.ofName? d.name with
    | none => .ok e
    | some .program => e.acceptName d
    | some keyword => (e.acceptSetting keyword d.argument).mapError .about

def draft (e : Entries) : Draft where
  id := e.id
  origin := e.origin.join
  wrap := e.wrap
  wrapTarget := e.wrapTarget
  sideSet := e.sideSet.getD .none
  instructions := e.code

end Entries

end PioBlock.Listing
