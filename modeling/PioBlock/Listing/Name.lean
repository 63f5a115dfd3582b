import PioBlock.Listing.Unmarked
import PioBlock.Numeral

/-! A program name is a letter or underscore followed by letters, digits and underscores, all of
them from ASCII. The first character that breaks this rule is quoted in the message. -/

namespace PioBlock.Listing

def isNameStart (c : Char) : Bool := c.isAlpha || c == '_'

def isNameRest (c : Char) : Bool := c.isAlphanum || c == '_'

theorem isNameRest_of_isNameStart {c : Char} (h : isNameStart c = true) : isNameRest c = true := by
  simp only [isNameStart, isNameRest, Char.isAlphanum, Bool.or_eq_true] at *
  rcases h with h | h
  · exact Or.inl (Or.inl h)
  · exact Or.inr h

inductive NameFault where
  | missing
  | badStart (c : Char)
  | badRest (c : Char)
deriving DecidableEq, Repr

/-- A character between quotes. The few that have a short escape get it, and one that would not
show is given by its number. -/
def quoted (c : Char) : String :=
  let shown :=
    if c = '\x00' then "\\0"
    else if c = '\t' then "\\t"
    else if c = '\r' then "\\r"
    else if c = '\n' then "\\n"
    else if c = '\'' then "\\'"
    else if c = '\\' then "\\\\"
    else if isUnmarked c then s!"\\u\x7b{Numeral.hexDigits 1 c.toNat}\x7d"
    else c.toString
  s!"'{shown}'"

def NameFault.message : NameFault → String
  | .missing => "missing name"
  | .badStart c => s!"name must start with a letter or '_', found {quoted c}"
  | .badRest c => s!"unexpected character {quoted c}"

/-- The first character, from position `n` on, that cannot go on a name. -/
def badRest? : Nat → List Char → Option (Nat × NameFault)
  | _, [] => none
  | n, c :: rest => if isNameRest c then badRest? (n + 1) rest else some (n, .badRest c)

def nameFault? : List Char → Option (Nat × NameFault)
  | [] => some (0, .missing)
  | c :: rest => if isNameStart c then badRest? 1 rest else some (0, .badStart c)

theorem badRest?_eq_none_iff {n : Nat} {text : List Char} :
    badRest? n text = none ↔ ∀ c ∈ text, isNameRest c = true := by
  induction text generalizing n with
  | nil => simp [badRest?]
  | cons c rest ih =>
    by_cases h : isNameRest c = true <;> simp [badRest?, h, ih]

theorem nameFault?_eq_none_iff {text : List Char} :
    nameFault? text = none ↔
      ∃ c rest, text = c :: rest ∧ isNameStart c = true ∧ ∀ d ∈ rest, isNameRest d = true := by
  cases text with
  | nil => simp [nameFault?]
  | cons c rest =>
    by_cases h : isNameStart c = true
    · rw [nameFault?, if_pos h, badRest?_eq_none_iff]
      constructor
      · exact fun hrest => ⟨c, rest, rfl, h, hrest⟩
      · rintro ⟨_, _, e, _, hrest⟩
        cases e
        exact hrest
    · rw [nameFault?, if_neg h]
      constructor
      · exact fun absurd => nomatch absurd
      · rintro ⟨_, _, e, hstart, _⟩
        cases e
        exact absurd hstart h

end PioBlock.Listing
