import PioBlock.Pieces

/-! A path is kept as it was written. The image of a listing goes next to it, under the same
name with another ending; slashes and single dots at the end of the directory are dropped, a
leading one of either kind stays. -/

namespace PioBlock.CommandLine

abbrev Path := List Char

namespace Path

/-- Drops the slashes and single dots that a path ends with, here read from its end, but not its
first character. -/
def dropTail : List Char → List Char
  | ['/'] => ['/']
  | '/' :: rest => dropTail rest
  | '.' :: '/' :: rest => dropTail ('/' :: rest)
  | reversed => reversed

def name (p : Path) : List Char := ((dropTail p.reverse).takeWhile (· != '/')).reverse

def parent (p : Path) : Path := (dropTail ((dropTail p.reverse).dropWhile (· != '/'))).reverse

/-- A name without its ending. The ending goes from the last dot on, unless the name has no other
characters before that. -/
def stem (name : List Char) : List Char :=
  match name.reverse.dropWhile (· != '.') with
  | _ :: c :: rest => (c :: rest).reverse
  | _ => name

def join (directory : Path) (name : List Char) : Path :=
  if directory = [] ∨ directory.getLast? = some '/' then directory ++ name
  else directory ++ '/' :: name

/-- Whether a name stands for a directory that has a name of its own. -/
def isDots (name : List Char) : Bool := name == ['.'] || name == ['.', '.']

/-- Where the image of the listing at `p` goes by default. -/
def image (p : Path) : Path :=
  let base := if p.name = [] ∨ isDots p.name then "out".toList else stem p.name
  join p.parent (base ++ ".bin".toList)

end Path

end PioBlock.CommandLine
