import PioBlock.CommandLine.Commands

/-! The command line on the files of the system. -/

namespace PioBlock

open CommandLine

/-- The fault that the system reported. -/
def faultOf (e : IO.Error) : FileFault :=
  match e with
  | .noFileOrDirectory _ code reason | .inappropriateType _ code reason
  | .noSuchThing _ code reason | .permissionDenied _ code reason
  | .resourceExhausted _ code reason | .alreadyExists _ code reason
  | .interrupted _ code reason | .invalidArgument _ code reason =>
    .ofCode code.toNat reason
  | .otherError code reason | .resourceBusy code reason | .resourceVanished code reason
  | .unsupportedOperation code reason | .hardwareFault code reason
  | .unsatisfiedConstraints code reason | .illegalOperation code reason
  | .protocolError code reason | .timeExpired code reason =>
    .ofCode code.toNat reason
  | .unexpectedEof => .other 0 "unexpected end of file"
  | .userError reason => .other 0 reason

def readSystemFile (path : Path) : IO (Except ReadFault (List UInt8)) := do
  match ← (IO.FS.Handle.mk (String.ofList path) .read).toBaseIO with
  | .error e => return .error (.unopened (faultOf e))
  | .ok handle =>
    match ← handle.readBinToEnd.toBaseIO with
    | .error e => return .error (.unread (faultOf e))
    | .ok bytes => return .ok bytes.data.toList

def writeSystemFile (path : Path) (bytes : List UInt8) : IO (Except FileFault Unit) := do
  match ← (IO.FS.writeBinFile (String.ofList path) bytes.toByteArray).toBaseIO with
  | .error e => return .error (faultOf e)
  | .ok () => return .ok ()

instance : FileStore IO := ⟨readSystemFile, writeSystemFile⟩

def printLine : Printed → IO Unit
  | .out line => IO.println line
  | .err line => IO.eprintln line

end PioBlock

def main (arguments : List String) : IO UInt32 := do
  let report ← PioBlock.CommandLine.run arguments
  report.printed.forM PioBlock.printLine
  return report.exitCode.toUInt32
