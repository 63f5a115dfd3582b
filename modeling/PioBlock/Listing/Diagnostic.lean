import PioBlock.Listing.Line
import PioBlock.Listing.Name
import PioBlock.Program

/-! What is wrong with a listing, and how it is told: the resource and the line, the cause, and
where a column is known the line itself over a caret. -/

namespace PioBlock.Listing

inductive Cause where
  | duplicate (keyword : Keyword)
  | sideSetAfterCode
  | invalidName (fault : NameFault)
  | missingArgument (keyword : Keyword)
  | unexpectedArgument (argument : String)
  | invalidNumber (text : String)
  | outOfRange (keyword : Keyword) (value low high : Int)
  | unknownFlag (flag : String)
  | tooManyFlags
  | invalidInstruction (text : String)
  | instructionOutOfRange (text : String)
  | tooManyInstructions
  | emptyProgram
  | program (error : ProgramError)
  | unreadable (reason : String)
deriving DecidableEq, Repr

def Cause.message : Cause → String
  | .duplicate keyword => s!"duplicate {keyword.name} directive"
  | .sideSetAfterCode => ".side_set must appear before the first instruction"
  | .invalidName fault => s!"invalid program name: {fault.message}"
  | .missingArgument keyword => s!"missing argument for {keyword.name}"
  | .unexpectedArgument argument => s!"unexpected argument: {argument}"
  | .invalidNumber text => s!"invalid decimal number: {text}"
  | .outOfRange keyword value low high =>
    s!"{keyword.name} value {value} out of range {low}..={high}"
  | .unknownFlag flag => s!"unknown .side_set flag: {flag} (expected opt or pindirs)"
  | .tooManyFlags => "too many .side_set flags"
  | .invalidInstruction text => s!"invalid instruction word: {text}"
  | .instructionOutOfRange text => s!"instruction word {text} exceeds 0xffff"
  | .tooManyInstructions => "program too large: more than 32 instructions"
  | .emptyProgram => "empty program"
  | .program error => error.message
  | .unreadable reason => s!"I/O error: {reason}"

/-- A place on a line: the column, counted from 1, and the line. -/
structure Caret where
  column : Nat
  line : List Char
deriving DecidableEq, Repr

/-- What stands before the caret: a tab under each tab of the line, a space under all else. -/
def Caret.indent (c : Caret) : List Char :=
  (c.line.take (c.column - 1)).map fun d => if d = '\t' then '\t' else ' '

def Caret.marker (c : Caret) : List Char := c.indent ++ ['^']

theorem Caret.length_marker {c : Caret} (h : c.column ≤ c.line.length + 1) :
    c.marker.length = c.column - 1 + 1 := by
  simp [marker, indent]
  omega

/-- A cause and where it was met. -/
structure Diagnostic where
  resource : String
  line : Nat
  cause : Cause
  caret : Option Caret
deriving DecidableEq, Repr

namespace Diagnostic

def location (d : Diagnostic) : String := s!"{d.resource}:{d.line}"

def message (d : Diagnostic) : String :=
  let text := s!"{d.location}: error: {d.cause.message}"
  match d.caret with
  | none => text
  | some c => s!"{text}\n{String.ofList c.line}\n{String.ofList c.marker}"

end Diagnostic

end PioBlock.Listing
