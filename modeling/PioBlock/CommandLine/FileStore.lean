import PioBlock.CommandLine.Path

/-! The command line reads whole files and writes whole files, and asks no more of the place
where they are kept. A file may fail to open or, once open, to be read. -/

namespace PioBlock.CommandLine

/-- Why a file cannot be had. -/
inductive FileFault where
  | missing
  | notDirectory
  | isDirectory
  | nameTooLong
  | other (code : Nat) (reason : String)
deriving DecidableEq, Repr

namespace FileFault

def code : FileFault → Nat
  | .missing => 2
  | .notDirectory => 20
  | .isDirectory => 21
  | .nameTooLong => 36
  | .other code _ => code

def reason : FileFault → String
  | .missing => "No such file or directory"
  | .notDirectory => "Not a directory"
  | .isDirectory => "Is a directory"
  | .nameTooLong => "File name too long"
  | .other _ reason => reason

def message (f : FileFault) : String := s!"{f.reason} (os error {f.code})"

def ofCode (code : Nat) (reason : String) : FileFault :=
  match [missing, notDirectory, isDirectory, nameTooLong].find? (·.code == code) with
  | some fault => fault
  | none => .other code reason

end FileFault

/-- Where reading a file failed. -/
inductive ReadFault where
  | unopened (cause : FileFault)
  | unread (cause : FileFault)
deriving DecidableEq, Repr

/-- A place where files are kept. -/
class FileStore (m : Type → Type) where
  read : Path → m (Except ReadFault (List UInt8))
  write : Path → List UInt8 → m (Except FileFault Unit)

end PioBlock.CommandLine
