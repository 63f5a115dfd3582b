import PioBlock.CommandLine.FileStore

/-! A tree of files is a list of places and what is found there, the root being a directory
always. A path leads through directories, one name after the other: an empty name and a single
dot stay where they are, two dots go back by one. Writing makes the last name of a path a file,
in a directory that has to be there. -/

namespace PioBlock.CommandLine

abbrev Location := List (List Char)

inductive Entry where
  | file (bytes : List UInt8)
  | directory
deriving DecidableEq, Repr

/-- Files and directories, and the directory where paths start that do not start at the root. -/
structure FileTree where
  entries : List (Location × Entry)
  working : Location
deriving DecidableEq, Repr

namespace FileTree

def find? (place : Location) : List (Location × Entry) → Option Entry
  | [] => none
  | (other, entry) :: rest => if other = place then some entry else find? place rest

def lookup? (t : FileTree) (place : Location) : Option Entry :=
  if place = [] then some .directory else find? place t.entries

/-- Makes an entry, in place of the one that was there. -/
def put (t : FileTree) (place : Location) (entry : Entry) : FileTree :=
  { t with entries := (place, entry) :: t.entries }

theorem lookup?_put {t : FileTree} {place : Location} {entry : Entry} (h : place ≠ []) :
    (t.put place entry).lookup? place = some entry := by simp [lookup?, put, find?, h]

theorem lookup?_put_of_ne {t : FileTree} {place other : Location} {entry : Entry}
    (h : place ≠ other) : (t.put place entry).lookup? other = t.lookup? other := by
  simp [lookup?, put, find?, h]

def putDirectory (t : FileTree) (place : Location) : FileTree :=
  (List.range place.length).foldl (fun t n => t.put (place.take (n + 1)) .directory) t

def enter (t : FileTree) (place : Location) : Except FileFault Unit :=
  match t.lookup? place with
  | some .directory => .ok ()
  | some (.file _) => .error .notDirectory
  | none => .error .missing

/-- Names have at most 255 bytes. -/
def checkName (name : List Char) : Except FileFault Unit :=
  if (String.ofList name).utf8ByteSize ≤ 255 then .ok () else .error .nameTooLong

def walk (t : FileTree) (place : Location) : List (List Char) → Except FileFault Location
  | [] => .ok place
  | name :: rest => do
    t.enter place
    if name = [] ∨ name = ['.'] then t.walk place rest
    else if name = ['.', '.'] then t.walk place.dropLast rest
    else
      checkName name
      t.walk (place ++ [name]) rest

/-- Where a path starts: at the root when it begins with a slash. -/
def start (t : FileTree) (path : Path) : Location :=
  if path.head? = some '/' then [] else t.working

/-- Paths have at least one byte and fewer than 4096. -/
def checkPath (path : Path) : Except FileFault Unit :=
  if path = [] then .error .missing
  else if (String.ofList path).utf8ByteSize < 4096 then .ok ()
  else .error .nameTooLong

def locate (t : FileTree) (path : Path) : Except FileFault Location := do
  checkPath path
  t.walk (t.start path) (cutAt '/' path)

/-- Reads a file. A directory opens but is not read. -/
def read (t : FileTree) (path : Path) : Except ReadFault (List UInt8) :=
  match t.locate path with
  | .error fault => .error (.unopened fault)
  | .ok place =>
    match t.lookup? place with
    | none => .error (.unopened .missing)
    | some .directory => .error (.unread .isDirectory)
    | some (.file bytes) => .ok bytes

/-- The place where writing to a path makes a file. A path that ends with a slash or with dots
means a directory. -/
def target (t : FileTree) (path : Path) : Except FileFault Location := do
  checkPath path
  match (cutAt '/' path).reverse.dropWhile (· == []) with
  | [] => throw .isDirectory
  | name :: before =>
    let directory ← t.walk (t.start path) before.reverse
    t.enter directory
    if path.getLast? = some '/' ∨ Path.isDots name then throw .isDirectory
    checkName name
    let place := directory ++ [name]
    if t.lookup? place = some .directory then throw .isDirectory
    return place

def write (t : FileTree) (path : Path) (bytes : List UInt8) : Except FileFault FileTree := do
  return t.put (← t.target path) (.file bytes)

instance : FileStore (StateM FileTree) where
  read path := do return (← get).read path
  write path bytes := do
    match (← get).write path bytes with
    | .ok t =>
      set t
      return .ok ()
    | .error fault => return .error fault

end FileTree

end PioBlock.CommandLine
