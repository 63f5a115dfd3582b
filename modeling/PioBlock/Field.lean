import PioBlock.Word

/-! A field is a run of bits inside a word. Reading it out and putting a value in obey the
laws of a lens: the value read back is the value put in, cut to the width, and every bit
outside the field stays as it was. -/

namespace PioBlock

/-- A non-empty run of `width` bits from bit `lsb` on. -/
structure Field where
  lsb : Nat
  width : Nat
  width_pos : 0 < width
  in_word : lsb + width ≤ 32
deriving DecidableEq, Repr

inductive SpanFault where
  | empty
  | pastEnd
  | overflow
deriving DecidableEq, Repr

def SpanFault.message : SpanFault → String
  | .empty => "bit field cannot be empty"
  | .pastEnd => "bit field must fit into a 32-bit word"
  | .overflow => "attempt to add with overflow"

namespace Field

/-- The field of a fixed layout, its bounds checked where it is written down. -/
def of (lsb width : Nat) (width_pos : 0 < width := by decide)
    (in_word : lsb + width ≤ 32 := by decide) : Field :=
  ⟨lsb, width, width_pos, in_word⟩

/-- The field of `width` bits from `lsb` on. An empty one is refused before one that ends
past the word, and the end itself has to be a number of 32 bits. -/
def ofSpan (lsb width : Nat) : Except SpanFault Field :=
  if width_pos : 0 < width then
    if lsb + width < 0x100000000 then
      if in_word : lsb + width ≤ 32 then .ok ⟨lsb, width, width_pos, in_word⟩
      else .error .pastEnd
    else .error .overflow
  else .error .empty

theorem ofSpan_eq_ok (f : Field) : ofSpan f.lsb f.width = .ok f := by
  have := f.in_word
  rw [ofSpan, dif_pos f.width_pos, if_pos (by omega), dif_pos f.in_word]

def max (f : Field) : Word := lowBits f.width

def mask (f : Field) : Word := f.max <<< f.lsb

def covers (f : Field) (i : Nat) : Bool := decide (f.lsb ≤ i ∧ i < f.lsb + f.width)

theorem covers_eq_true {f : Field} {i : Nat} :
    f.covers i = true ↔ f.lsb ≤ i ∧ i < f.lsb + f.width := decide_eq_true_iff

theorem covers_eq_false {f : Field} {i : Nat} :
    f.covers i = false ↔ i < f.lsb ∨ f.lsb + f.width ≤ i := by
  rw [covers, decide_eq_false_iff_not]
  omega

theorem getLsbD_mask (f : Field) (i : Nat) : f.mask.getLsbD i = f.covers i := by
  have := f.in_word
  rw [mask, max, BitVec.getLsbD_shiftLeft, getLsbD_lowBits, covers, Bool.eq_iff_iff]
  simp only [Bool.and_eq_true, Bool.not_eq_true', decide_eq_true_eq, decide_eq_false_iff_not]
  omega

def extract (f : Field) (w : Word) : Word := (w &&& f.mask) >>> f.lsb

theorem getLsbD_extract (f : Field) (w : Word) (i : Nat) :
    (f.extract w).getLsbD i = (decide (i < f.width) && w.getLsbD (f.lsb + i)) := by
  rw [extract, BitVec.getLsbD_ushiftRight, BitVec.getLsbD_and, getLsbD_mask, Bool.and_comm]
  congr 1
  simp [covers]

/-- `w` with the field replaced by `v`, whose bits past the width are dropped. -/
def insert (f : Field) (w v : Word) : Word := (w &&& ~~~f.mask) ||| ((v <<< f.lsb) &&& f.mask)

theorem getLsbD_insert (f : Field) (w v : Word) (i : Nat) :
    (f.insert w v).getLsbD i = if f.covers i then v.getLsbD (i - f.lsb) else w.getLsbD i := by
  have end_le := f.in_word
  have bit : (f.insert w v).getLsbD i = ((w.getLsbD i && (decide (i < 32) && !f.covers i)) ||
      ((decide (i < 32) && !decide (i < f.lsb) && v.getLsbD (i - f.lsb)) && f.covers i)) := by
    simp only [insert, BitVec.getLsbD_or, BitVec.getLsbD_and, BitVec.getLsbD_not,
      BitVec.getLsbD_shiftLeft, getLsbD_mask]
  rw [bit]
  cases hc : f.covers i with
  | true =>
    have hc' := covers_eq_true.mp hc
    have h32 : i < 32 := by omega
    have hlsb : ¬ i < f.lsb := by omega
    simp [h32, hlsb]
  | false =>
    by_cases h32 : i < 32
    · simp [h32]
    · simp [h32, BitVec.getLsbD_of_ge w i (by omega)]

/-- `v` in place, all else zero. -/
def place (f : Field) (v : Word) : Word := f.insert 0 v

theorem getLsbD_place (f : Field) (v : Word) (i : Nat) :
    (f.place v).getLsbD i = (f.covers i && v.getLsbD (i - f.lsb)) := by
  rw [place, getLsbD_insert]
  cases f.covers i <;> simp

def isSet (f : Field) (w : Word) : Bool := f.extract w != 0

end Field

end PioBlock
