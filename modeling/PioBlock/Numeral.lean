/-! How numbers are written and read. Addresses and masks appear in lower-case hexadecimal
with a least number of digits, all else in decimal; a decimal number may carry one sign and
must fit into 64 bits, and a run of hexadecimal digits may have any number of leading zeros. -/

namespace PioBlock.Numeral

/-- The digits of `n` in lower-case hexadecimal, padded with zeros to `width`. -/
def hexDigits (width n : Nat) : String :=
  let digits := Nat.toDigits 16 n
  String.ofList (List.replicate (width - digits.length) '0' ++ digits)

def hex (width n : Nat) : String := "0x" ++ hexDigits width n

def decimal (width n : Nat) : String :=
  let digits := Nat.toDigits 10 n
  String.ofList (List.replicate (width - digits.length) '0' ++ digits)

def decimalDigit? (c : Char) : Option Nat :=
  if '0' ≤ c ∧ c ≤ '9' then some (c.toNat - '0'.toNat) else none

def hexDigit? (c : Char) : Option Nat :=
  if '0' ≤ c ∧ c ≤ '9' then some (c.toNat - '0'.toNat)
  else if 'a' ≤ c ∧ c ≤ 'f' then some (c.toNat - 'a'.toNat + 10)
  else if 'A' ≤ c ∧ c ≤ 'F' then some (c.toNat - 'A'.toNat + 10)
  else none

/-- Reads `digits` in the given base from the most significant one on, starting at `acc`. -/
def readDigits (digit? : Char → Option Nat) (base : Nat) : Nat → List Char → Option Nat
  | acc, [] => some acc
  | acc, c :: cs =>
    match digit? c with
    | some d => readDigits digit? base (acc * base + d) cs
    | none => none

def readDecimal? : List Char → Option Nat
  | [] => none
  | cs => readDigits decimalDigit? 10 0 cs

def readHex? : List Char → Option Nat
  | [] => none
  | cs => readDigits hexDigit? 16 0 cs

/-- Keeps the integers of 64 bits. -/
def in64? (z : Int) : Option Int :=
  if -0x8000000000000000 ≤ z ∧ z ≤ 0x7fffffffffffffff then some z else none

/-- Reads a decimal integer of 64 bits: at most one sign, then one or more digits. -/
def readInt? : List Char → Option Int
  | '-' :: cs => (readDecimal? cs).bind fun n => in64? (-n)
  | '+' :: cs => (readDecimal? cs).bind fun n => in64? n
  | cs => (readDecimal? cs).bind fun n => in64? n

end PioBlock.Numeral
