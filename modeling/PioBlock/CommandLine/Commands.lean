import PioBlock.CommandLine.FileTree
import PioBlock.CommandLine.Report
import PioBlock.CommandLine.Request
import PioBlock.Listing.Reading
import PioBlock.Machine

/-! The three commands. `check` reads listings and sums each of them up, going on behind one that
is refused. `build` writes the image of a program. `place` reads all listings first, then loads
the programs into a fresh block in the order given, up to the first that finds no place. -/

namespace PioBlock.CommandLine

/-- Why a listing gave no program. -/
inductive LoadError where
  | unopened (path : Path) (cause : FileFault)
  | refused (diagnostic : Listing.Diagnostic)
deriving DecidableEq, Repr

def LoadError.message : LoadError → String
  | .unopened path cause => s!"{String.ofList path}: error: I/O error: {cause.message}"
  | .refused diagnostic => diagnostic.message

/-- What a file gives to read: lines, or a first line that cannot be had. -/
def loadLines (path : Path) :
    Except ReadFault (List UInt8) → Except LoadError (List Listing.Source)
  | .ok bytes => .ok ((Listing.byteLines bytes).map Listing.sourceOfBytes)
  | .error (.unread cause) => .ok [.error cause.message]
  | .error (.unopened cause) => .error (.unopened path cause)

def programOf (path : Path) (contents : Except ReadFault (List UInt8)) :
    Except LoadError Program := do
  let lines ← loadLines path contents
  (Listing.readLines (String.ofList path) lines).mapError .refused

def sideSetText (s : SideSet) : String :=
  if s.count = 0 then ""
  else s!", side-set {s.count}" ++ (if s.isOptional then " opt" else "") ++
    (if s.pindirs then " pindirs" else "")

def originText (p : Program) : String :=
  match p.origin with
  | some origin => s!"origin {origin.val}"
  | none => "relocatable"

def nameText (p : Program) : String := p.id.getD "<unnamed>"

def summary (path : Path) (p : Program) : String :=
  s!"{String.ofList path}: {nameText p} ({p.length} instructions, {originText p}, " ++
  s!"wrap {p.wrapTarget.val}..{p.wrap.val}{sideSetText p.sideSet})"

def slotLines (p : Program) : List String :=
  p.instructions.zipIdx.map fun (i, n) =>
    s!"{Numeral.decimal 2 n}: {Numeral.hexDigits 4 i.toNat}"

section

variable {m : Type → Type} [Monad m] [FileStore m]

def load (path : Path) : m (Except LoadError Program) := do
  return programOf path (← FileStore.read path)

/-- Reads programs up to the first that is refused. -/
def loadAll : List Path → m (Except LoadError (List (Path × Program)))
  | [] => return .ok []
  | path :: rest => do
    match ← load path with
    | .error e => return .error e
    | .ok p => return (← loadAll rest).map ((path, p) :: ·)

def verdict (path : Path) : Except LoadError Program → Report
  | .ok p => .output [summary path p]
  | .error e => .failure [e.message]

def check : List Path → m Report
  | [] => return .silent
  | path :: rest => do
    let first := verdict path (← load path)
    return first ++ (← check rest)

def outputPath (input : Path) (output : Option Path) : Path := output.getD (Path.image input)

def built (input output : Path) (verbose : Bool) (p : Program) : Report :=
  ⟨(if verbose then (slotLines p).map .err else []) ++
    [.out (s!"Wrote {String.ofList input} ({p.length} instructions, {p.image.length} bytes) " ++
      s!"-> {String.ofList output}")], false⟩

def build (input : Path) (output : Option Path) (verbose : Bool) : m Report := do
  match ← load input with
  | .error e => return .failure [e.message]
  | .ok p =>
    let path := outputPath input output
    match ← FileStore.write path p.image with
    | .error fault => return .failure [s!"error: failed to write output: {fault.message}"]
    | .ok () => return built input path verbose p

end

/-- Loads programs through a handle, one after the other, up to the first that finds no place. -/
def placeAll (h : Handle) (d : Dispatch RegisterFile) : List (Path × Program) → Report
  | [] => .output [s!"occupancy {Numeral.hex 8 h.occupancy.toNat}"]
  | (path, p) :: rest =>
    let run := ((Control.load p none).start h).run d
    match run.value.1 with
    | .ok offset =>
      .output [s!"{String.ofList path}: offset {offset}"] ++ placeAll run.value.2 run.space rest
    | .error failure => .failure [s!"{String.ofList path}: error: {failure.message}"]

def placed (programs : List (Path × Program)) : Report :=
  match Chip.ofCount Chip.defaultCount with
  | .error e => .failure [s!"error: {e.message}"]
  | .ok machine =>
    match machine.handles with
    | [] => .failure ["error: PIO0 is not available"]
    | h :: _ => placeAll h machine.dispatch programs

variable {m : Type → Type} [Monad m] [FileStore m]

def place (inputs : List Path) : m Report := do
  match ← loadAll inputs with
  | .error e => return .failure [e.message]
  | .ok programs => return placed programs

/-- What is told when arguments are refused. -/
def refusal (fault : UsageFault) : Report :=
  match fault.complaint? with
  | none => ⟨usageLines.map .out, true⟩
  | some complaint => .failure (s!"error: {complaint}" :: usageLines)

def perform : Request → m Report
  | .help => return .output usageLines
  | .check inputs => check inputs
  | .build input output verbose => build input output verbose
  | .place inputs => place inputs

def run (arguments : List String) : m Report :=
  match Request.ofArguments arguments with
  | .ok request => perform request
  | .error fault => return refusal fault

end PioBlock.CommandLine
