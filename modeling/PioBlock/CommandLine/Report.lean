import PioBlock.Listing.Diagnostic

/-! What a command leaves behind besides files: lines on two streams and whether it failed. -/

namespace PioBlock.CommandLine

/-- A line on the output stream or on the error stream. -/
inductive Printed where
  | out (line : String)
  | err (line : String)
deriving DecidableEq, Repr

structure Report where
  printed : List Printed
  failed : Bool
deriving DecidableEq, Repr

namespace Report

def silent : Report := ⟨[], false⟩

def output (lines : List String) : Report := ⟨lines.map .out, false⟩

def failure (lines : List String) : Report := ⟨lines.map .err, true⟩

/-- One report after the other; the whole has failed when one of them has. -/
def append (r s : Report) : Report := ⟨r.printed ++ s.printed, r.failed || s.failed⟩

instance : Append Report := ⟨append⟩

def exitCode (r : Report) : Nat := if r.failed then 1 else 0

def text (lines : List String) : String := String.join (lines.map (· ++ "\n"))

def outputText (r : Report) : String :=
  text (r.printed.filterMap fun | .out line => some line | .err _ => none)

def errorText (r : Report) : String :=
  text (r.printed.filterMap fun | .err line => some line | .out _ => none)

end Report

end PioBlock.CommandLine
