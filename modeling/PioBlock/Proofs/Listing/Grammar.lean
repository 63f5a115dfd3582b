import PioBlock.Listing.Entries
import PioBlock.Proofs.Listing.Tokens
import PioBlock.Proofs.Listing.Numbers

/-! The grammar of listings. Every line reads as an item by its text alone. A listing is coherent
when its items may follow one another and their instruction words fit into the memory, and then it
describes one program. Nothing here runs: the reader is compared with these relations elsewhere. -/

namespace PioBlock.Listing

open Numeral

inductive Item where
  | nothing
  | name (id : String) (ne : id ≠ "")
  | origin (slot : Option Slot)
  | wrap (slot : Slot)
  | wrapTarget (slot : Slot)
  | sideSet (s : SideSet) (fits : s.count ≤ s.maxCount)
  | code (i : Instruction)

/-- The text is a letter or an underscore, then letters, digits and underscores. -/
def IsIdentifier (text : List Char) : Prop :=
  ∃ c rest, text = c :: rest ∧ isNameStart c = true ∧ ∀ d ∈ rest, isNameRest d = true

theorem IsIdentifier.toString_ne {text : List Char} (h : IsIdentifier text) :
    String.ofList text ≠ "" := by
  obtain ⟨c, rest, rfl, -⟩ := h
  intro empty
  have chars := congrArg String.toList empty
  simp at chars

/-- What a directive that counts asks for, by the text after its name. -/
inductive Asks : Keyword → List Char → Item → Prop where
  | program {argument id : List Char} (one : Tokens argument [id]) (valid : IsIdentifier id) :
      Asks .program argument (.name (.ofList id) valid.toString_ne)
  | origin {argument text : List Char} {slot : Slot} (one : Tokens argument [text])
      (decimal : Decimal text slot.val) : Asks .origin argument (.origin (some slot))
  | anywhere {argument text : List Char} (one : Tokens argument [text])
      (decimal : Decimal text (-1)) : Asks .origin argument (.origin none)
  | wrap {argument text : List Char} {slot : Slot} (one : Tokens argument [text])
      (decimal : Decimal text slot.val) : Asks .wrap argument (.wrap slot)
  | wrapTarget {argument text : List Char} {slot : Slot} (one : Tokens argument [text])
      (decimal : Decimal text slot.val) : Asks .wrapTarget argument (.wrapTarget slot)
  | sideSet {argument count : List Char} {flags : List (List Char)} {s : SideSet}
      (tokens : Tokens argument (count :: flags)) (decimal : Decimal count s.count)
      (few : flags.length ≤ 2) (known : ∀ f ∈ flags, f = "opt".toList ∨ f = "pindirs".toList)
      (isOptional : s.isOptional = true ↔ "opt".toList ∈ flags)
      (pindirs : s.pindirs = true ↔ "pindirs".toList ∈ flags) (fits : s.count ≤ s.maxCount) :
      Asks .sideSet argument (.sideSet s fits)
  | word {argument text : List Char} {i : Instruction} (one : Tokens argument [text])
      (decimal : Decimal text i.toNat) : Asks .word argument (.code i)

/-- What a directive asks for. One with another name asks for nothing. -/
inductive Means (name argument : List Char) : Item → Prop where
  | known {k : Keyword} {item : Item} (named : name = k.name.toList)
      (asks : Asks k argument item) : Means name argument item
  | other (unknown : ∀ k : Keyword, name ≠ k.name.toList) : Means name argument .nothing

inductive Reads : List Char → Item → Prop where
  | blank {line : List Char} (blank : AllBlank line) : Reads line .nothing
  | comment {front gap rest : List Char} (blank : AllBlank front) (blank' : AllBlank gap)
      (plain : ∀ c ∈ rest.head?, isBlank c = false ∧ c ≠ '.') :
      Reads (front ++ '#' :: (gap ++ rest)) .nothing
  | directive {front gap name argument tail : List Char} {item : Item} (blank : AllBlank front)
      (blank' : AllBlank gap) (dot : name.head? = some '.') (solid : NoBlank name)
      (cut : StartsBlank argument) (open_ : ';' ∉ name ++ argument)
      (closed : ∀ c ∈ tail.head?, c = ';') (meaning : Means name argument item) :
      Reads (front ++ '#' :: (gap ++ (name ++ argument ++ tail))) item
  | word {front mark digits gap : List Char} {i : Instruction} (blank : AllBlank front)
      (blank' : AllBlank gap) (marks : mark ∈ [[], "0x".toList, "0X".toList])
      (spells : Spells hexDigit? 16 digits i.toNat) :
      Reads (front ++ (mark ++ digits ++ gap)) (.code i)

namespace Item

/-- Whether a line that says the second item may stand below one that says the first. -/
def Allows : Item → Item → Prop
  | .name .., .name .. | .origin _, .origin _ | .wrap _, .wrap _ | .wrapTarget _, .wrapTarget _
  | .sideSet .., .sideSet .. | .code _, .sideSet .. => False
  | _, _ => True

@[simp] def name? : Item → Option String
  | .name id _ => some id
  | _ => none

@[simp] def origin? : Item → Option (Option Slot)
  | .origin slot => some slot
  | _ => none

@[simp] def wrap? : Item → Option Slot
  | .wrap slot => some slot
  | _ => none

@[simp] def wrapTarget? : Item → Option Slot
  | .wrapTarget slot => some slot
  | _ => none

@[simp] def sideSet? : Item → Option SideSet
  | .sideSet s _ => some s
  | _ => none

@[simp] def code? : Item → Option Instruction
  | .code i => some i
  | _ => none

end Item

/-- The items make a program: no directive but `.word` comes twice, no side-set comes after an
instruction, and there are instructions, but no more than fit. -/
structure Coherent (items : List Item) : Prop where
  ordered : items.Pairwise Item.Allows
  some_code : 0 < (items.filterMap Item.code?).length
  code_fits : (items.filterMap Item.code?).length ≤ 32

/-- The program that coherent items describe. What they do not say is that the program may go
anywhere, wraps from its last slot to its first, and has no side-set. -/
structure Describes (items : List Item) (p : Program) : Prop where
  id_eq : p.id = items.findSome? Item.name?
  origin_eq : p.origin = (items.findSome? Item.origin?).join
  wrap_eq : p.wrap = (items.findSome? Item.wrap?).getD
    (Draft.lastSlot p.origin (items.filterMap Item.code?).length)
  wrapTarget_eq : p.wrapTarget = (items.findSome? Item.wrapTarget?).getD (p.origin.getD 0)
  sideSet_eq : p.sideSet = (items.findSome? Item.sideSet?).getD .none
  instructions_eq : p.instructions = items.filterMap Item.code?

end PioBlock.Listing
