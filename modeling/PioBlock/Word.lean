/-! Register words are vectors of 32 bits, and sets of slots, pins or state machines are
read off their bits. `lowBits` is a run of ones at the bottom of a word and `setBits` lists
the positions that hold a one, lowest first. -/

namespace PioBlock

/-- The contents of one register, and the byte address of one. -/
abbrev Word := BitVec 32

theorem and_eq_zero_of_apart {v w : Word}
    (apart : ∀ j, v.getLsbD j = true → w.getLsbD j = true → False) : v &&& w = 0 := by
  apply BitVec.eq_of_getLsbD_eq
  intro j _
  rw [BitVec.getLsbD_and]
  cases hv : v.getLsbD j with
  | false => simp
  | true =>
    cases hw : w.getLsbD j with
    | false => simp
    | true => exact (apart j hv hw).elim

def allBits : Word := BitVec.allOnes 32

theorem and_allBits (w : Word) : w &&& allBits = w := BitVec.and_allOnes

theorem not_allBits : ~~~allBits = 0 := by decide

theorem getLsbD_allBits (i : Nat) : allBits.getLsbD i = decide (i < 32) := BitVec.getLsbD_allOnes

/-- The word whose lowest `n` bits are one; the whole word when `n` passes its end. -/
def lowBits (n : Nat) : Word := allBits >>> (32 - n)

theorem getLsbD_lowBits (n i : Nat) :
    (lowBits n).getLsbD i = (decide (i < 32) && decide (i < n)) := by
  rw [lowBits, BitVec.getLsbD_ushiftRight, getLsbD_allBits, ← Bool.decide_and, decide_eq_decide]
  omega

theorem lowBits_of_le {n : Nat} (h : 32 ≤ n) : lowBits n = allBits := by
  rw [lowBits, Nat.sub_eq_zero_of_le h, BitVec.ushiftRight_zero]

/-- The positions of the ones of `w`, in ascending order. -/
def setBits {n : Nat} (w : BitVec n) : List Nat := (List.range n).filter (w.getLsbD ·)

theorem mem_setBits {n : Nat} {w : BitVec n} {i : Nat} : i ∈ setBits w ↔ w.getLsbD i = true := by
  simp only [setBits, List.mem_filter, List.mem_range, and_iff_right_iff_imp]
  exact BitVec.lt_of_getLsbD

theorem lt_of_mem_setBits {n : Nat} {w : BitVec n} {i : Nat} (h : i ∈ setBits w) : i < n :=
  BitVec.lt_of_getLsbD (mem_setBits.mp h)

theorem pairwise_setBits {n : Nat} (w : BitVec n) : (setBits w).Pairwise (· < ·) :=
  List.pairwise_lt_range.filter _

theorem setBits_zero (n : Nat) : setBits (0#n) = [] := by simp [setBits]

end PioBlock
