import PioBlock.Listing.Blank

/-! A line of a listing holds an instruction word, a directive, or nothing that counts: it is
blank, or a comment behind a `#`. A directive is a `#` line whose content starts with a dot; a
semicolon ends it, and its name ends at the first blank. -/

namespace PioBlock.Listing

/-- A directive as it stands on its line. `column` is the place, counted from 1, where its
argument begins. -/
structure Directive where
  name : List Char
  argument : List Char
  column : Nat
deriving DecidableEq, Repr

/-- What a line holds. -/
inductive Line where
  | nothing
  | directive (d : Directive)
  | word (text : List Char)
deriving DecidableEq, Repr

/-- The directive whose dot is the first character of `content`, which ends a line of `length`
characters. -/
def Directive.ofContent (length : Nat) (content : List Char) : Directive :=
  let body := trimEnd (content.takeWhile (· != ';'))
  let argument := trimStart (body.dropWhile (!isBlank ·))
  ⟨body.takeWhile (!isBlank ·), argument,
    (length - content.length) + (body.length - argument.length) + 1⟩

def Line.ofText (text : List Char) : Line :=
  match trimStart text with
  | [] => .nothing
  | c :: rest =>
    if c = '#' then
      let content := trimStart rest
      if content.head? = some '.' then .directive (.ofContent text.length content) else .nothing
    else .word (trimEnd (c :: rest))

/-- The directives that count; all others are passed over. -/
inductive Keyword where
  | program
  | origin
  | wrap
  | wrapTarget
  | sideSet
  | word
deriving DecidableEq, Repr

namespace Keyword

def name : Keyword → String
  | .program => ".program"
  | .origin => ".origin"
  | .wrap => ".wrap"
  | .wrapTarget => ".wrap_target"
  | .sideSet => ".side_set"
  | .word => ".word"

def all : List Keyword := [.program, .origin, .wrap, .wrapTarget, .sideSet, .word]

def ofName? (name : List Char) : Option Keyword := all.find? fun k => k.name.toList == name

theorem ofName?_name (k : Keyword) : ofName? k.name.toList = some k := by cases k <;> decide

end Keyword

end PioBlock.Listing
