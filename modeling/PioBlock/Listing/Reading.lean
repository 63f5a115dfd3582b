import PioBlock.Listing.Entries
import PioBlock.Listing.Lines

/-! Reading a listing takes its lines one after the other and stops at the first that is refused;
at the end the entries have to make a program. Texts and the bytes of files are read alike, only
that a line of bytes may turn out not to be text. -/

namespace PioBlock.Listing

/-- A line to be read, or the reason why it could not be had. -/
abbrev Source := Except String (List Char)

structure Progress where
  lines : Nat
  entries : Entries
deriving DecidableEq, Repr

namespace Progress

def start : Progress := ⟨0, .empty⟩

def step (resource : String) (p : Progress) : Source → Except Diagnostic Progress
  | .error reason => .error ⟨resource, p.lines + 1, .unreadable reason, none⟩
  | .ok text =>
    match p.entries.accept (.ofText text) with
    | .ok entries => .ok ⟨p.lines + 1, entries⟩
    | .error c => .error ⟨resource, p.lines + 1, c.cause, c.column.map (⟨·, text⟩)⟩

/-- Takes lines up to the first that is refused. -/
def steps (resource : String) (p : Progress) : List Source → Except Diagnostic Progress
  | [] => .ok p
  | line :: rest =>
    match p.step resource line with
    | .ok next => next.steps resource rest
    | .error d => .error d

theorem steps_append (resource : String) (p : Progress) (ls ms : List Source) :
    p.steps resource (ls ++ ms) = (p.steps resource ls).bind (·.steps resource ms) := by
  induction ls generalizing p with
  | nil => rfl
  | cons line rest ih =>
    rw [List.cons_append, steps, steps]
    cases p.step resource line with
    | ok next => exact ih next
    | error d => rfl

def finish (resource : String) (p : Progress) : Except Diagnostic Program :=
  if p.entries.code.isEmpty then .error ⟨resource, p.lines, .emptyProgram, none⟩
  else
    match p.entries.draft.build with
    | .ok program => .ok program
    | .error e => .error ⟨resource, p.lines, .program e, none⟩

end Progress

def readLines (resource : String) (lines : List Source) : Except Diagnostic Program := do
  (← Progress.start.steps resource lines).finish resource

def readText (resource : String) (text : List Char) : Except Diagnostic Program :=
  readLines resource ((textLines text).map .ok)

def read (resource text : String) : Except Diagnostic Program := readText resource text.toList

def notText : String := "stream did not contain valid UTF-8"

def sourceOfBytes (bytes : List UInt8) : Source :=
  match decode? bytes with
  | some text => .ok text
  | none => .error notText

def readBytes (resource : String) (bytes : List UInt8) : Except Diagnostic Program :=
  readLines resource ((byteLines bytes).map sourceOfBytes)

end PioBlock.Listing
