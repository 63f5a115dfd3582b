import PioBlock.Proofs.Panics.Arithmetic
import Mathlib.Data.List.Sort
import Mathlib.Data.Nat.BitIndices
import Mathlib.Tactic.Ring

/-! The ones of a word, handed out one at a time. A walk over them keeps a word. Each call tells
where its lowest one is and clears it by taking away one, and at zero there is nothing left to
tell. Whatever the word is, the calls hand out the ones of it, each once and in ascending order. -/

namespace PioBlock

theorem exists_eq_of_ctz {w : Word} (nonzero : w ≠ 0) :
    ∃ k, w.toNat = 2 ^ (w.ctz.toNat + 1) * k + 2 ^ w.ctz.toNat := by
  have one : w.toNat.testBit w.ctz.toNat = true := BitVec.getLsbD_true_ctz_of_ne_zero nonzero
  have low : w.toNat % 2 ^ w.ctz.toNat = 0 := by
    refine Nat.eq_of_testBit_eq fun i => ?_
    rw [Nat.testBit_mod_two_pow, Nat.zero_testBit]
    by_cases below : i < w.ctz.toNat
    · have zero : w.toNat.testBit i = false := BitVec.getLsbD_false_of_lt_ctz below
      rw [zero, Bool.and_false]
    · rw [decide_eq_false below, Bool.false_and]
  rw [Nat.testBit_eq_decide_div_mod_eq, decide_eq_true_eq] at one
  refine ⟨w.toNat / 2 ^ w.ctz.toNat / 2, ?_⟩
  have split := Nat.div_add_mod w.toNat (2 ^ w.ctz.toNat)
  have odd := Nat.div_add_mod (w.toNat / 2 ^ w.ctz.toNat) 2
  rw [one] at odd
  calc w.toNat = 2 ^ w.ctz.toNat * (w.toNat / 2 ^ w.ctz.toNat) := by omega
    _ = 2 ^ w.ctz.toNat * (2 * (w.toNat / 2 ^ w.ctz.toNat / 2) + 1) := by rw [odd]
    _ = _ := by ring

theorem getLsbD_and_sub_one {w : Word} (nonzero : w ≠ 0) (i : Nat) :
    (w &&& (w - 1)).getLsbD i = (decide (w.ctz.toNat < i) && w.getLsbD i) := by
  obtain ⟨k, form⟩ := exists_eq_of_ctz nonzero
  have positive := Nat.two_pow_pos w.ctz.toNat
  have less : (w - 1).toNat = 2 ^ (w.ctz.toNat + 1) * k + (2 ^ w.ctz.toNat - 1) := by
    rw [BitVec.toNat_sub_of_le (by bv_omega)]
    change w.toNat - 1 = _
    omega
  have doubled : 2 ^ (w.ctz.toNat + 1) = 2 * 2 ^ w.ctz.toNat := Nat.pow_succ'
  rw [BitVec.getLsbD_and]
  by_cases above : w.ctz.toNat < i
  · have same : (w - 1).getLsbD i = w.getLsbD i := by
      rw [BitVec.getLsbD, BitVec.getLsbD, less, form, Nat.testBit_two_pow_mul_add _ (by omega),
        Nat.testBit_two_pow_mul_add _ (by omega), if_neg (by omega), if_neg (by omega)]
    rw [same, Bool.and_self, decide_eq_true above, Bool.true_and]
  · rw [decide_eq_false above, Bool.false_and]
    rcases Nat.lt_or_eq_of_le (Nat.le_of_not_lt above) with below | rfl
    · rw [BitVec.getLsbD_false_of_lt_ctz below, Bool.false_and]
    · have cleared : (w - 1).getLsbD w.ctz.toNat = false := by
        rw [BitVec.getLsbD, less, Nat.testBit_two_pow_mul_add _ (by omega), if_pos (by omega),
          Nat.testBit_two_pow_sub_one, decide_eq_false (Nat.lt_irrefl _)]
      rw [cleared, Bool.and_false]

theorem setBits_eq_cons {w : Word} (nonzero : w ≠ 0) :
    setBits w = w.ctz.toNat :: setBits (w &&& (w - 1)) := by
  have lowest := BitVec.getLsbD_true_ctz_of_ne_zero nonzero
  have left : ∀ i, i ∈ setBits (w &&& (w - 1)) ↔ w.ctz.toNat < i ∧ w.getLsbD i = true := by
    intro i
    rw [mem_setBits, getLsbD_and_sub_one nonzero, Bool.and_eq_true, decide_eq_true_eq]
  have ascending : (w.ctz.toNat :: setBits (w &&& (w - 1))).Pairwise (· < ·) :=
    List.pairwise_cons.mpr ⟨fun i listed => ((left i).mp listed).1, pairwise_setBits _⟩
  refine (pairwise_setBits w).eq_of_mem_iff ascending fun i => ?_
  rw [mem_setBits, List.mem_cons, left]
  constructor
  · intro one
    rcases Nat.lt_trichotomy i w.ctz.toNat with below | here | above
    · rw [BitVec.getLsbD_false_of_lt_ctz below] at one
      cases one
    · exact .inl here
    · exact .inr ⟨above, one⟩
  · rintro (rfl | ⟨-, one⟩)
    · exact lowest
    · exact one

theorem and_sub_one_lt {w : Word} (nonzero : w ≠ 0) : (w &&& (w - 1)).toNat < w.toNat := by
  have le : w.toNat &&& (w - 1).toNat ≤ (w - 1).toNat := Nat.and_le_right
  rw [BitVec.toNat_and]
  bv_omega

theorem sum_two_pow_setBits {n : Nat} (w : BitVec n) :
    ((setBits w).map (2 ^ ·)).sum = w.toNat := by
  have same : setBits w = w.toNat.bitIndices :=
    (pairwise_setBits w).eq_of_mem_iff Nat.bitIndices_sorted.pairwise fun i => by
      rw [mem_setBits, Nat.mem_bitIndices]
      rfl
  rw [same, Nat.sum_map_two_pow_bitIndices]

namespace Checked

/-- The positions of the ones of `w`, found by clearing the lowest one again and again. -/
def setBits (w : Word) : Checked (List Nat) :=
  if w = 0 then return []
  else do
    let _ ← sub w.toNat 1
    return w.ctz.toNat :: (← setBits (w &&& (w - 1)))
termination_by w.toNat
decreasing_by exact and_sub_one_lt (by assumption)

theorem setBits_eq_ok (w : Word) : setBits w = .ok (PioBlock.setBits w) := by
  -- The walk ends because clearing the lowest one makes the word smaller as a number.
  induction w using setBits.induct with
  | case1 =>
    rw [setBits, if_pos rfl]
    exact congrArg Except.ok (setBits_zero 32).symm
  | case2 w nonzero ih =>
    rw [setBits, if_neg nonzero, sub_eq_ok (by bv_omega), ok_bind, ih, ok_bind,
      setBits_eq_cons nonzero, pure_eq_ok]

theorem setBits_word (s : MachineSet) : setBits s.word = .ok (PioBlock.setBits s) := by
  rw [setBits_eq_ok]
  revert s
  decide

/-- One call of the walk: where the lowest one of `w` is, and `w` without it. -/
def nextOne (w : Word) : Checked (Option Nat × Word) :=
  if w = 0 then return (none, w)
  else do
    let _ ← sub w.toNat 1
    return (some w.ctz.toNat, w &&& (w - 1))

theorem nextOne_eq_ok (w : Word) : ∃ left, nextOne w = .ok ((PioBlock.setBits w).head?, left) ∧
    PioBlock.setBits left = (PioBlock.setBits w).tail := by
  by_cases zero : w = 0
  · subst zero
    exact ⟨0, rfl, rfl⟩
  · refine ⟨w &&& (w - 1), ?_, ?_⟩
    · rw [nextOne, if_neg zero, sub_eq_ok (by bv_omega), ok_bind, setBits_eq_cons zero]
      rfl
    · rw [setBits_eq_cons zero, List.tail_cons]

/-- What so many calls in a row answer. -/
def answers : Nat → Word → Checked (List (Option Nat))
  | 0, _ => return []
  | calls + 1, w => do
    let (answer, left) ← nextOne w
    return answer :: (← answers calls left)

theorem answers_eq_ok (calls : Nat) (w : Word) :
    answers calls w = .ok ((List.range calls).map fun i => (PioBlock.setBits w)[i]?) := by
  -- A call drops the head of the list, so the word changes along the induction.
  induction calls generalizing w with
  | zero => rfl
  | succ calls ih =>
    obtain ⟨left, called, listed⟩ := nextOne_eq_ok w
    rw [answers, called, ok_bind]
    dsimp only
    rw [ih, ok_bind, listed, List.range_succ_eq_map, List.map_cons,
      List.map_map, List.head?_eq_getElem?]
    simp only [Function.comp_def, List.getElem?_tail, pure_eq_ok]

/-- The walk over the ones of a word ends after 32 calls at the latest, and no call panics. It
hands out exactly the positions of the ones, in ascending order, and their powers of two sum up to
the word. -/
theorem answers_list_ones (w : Word) :
    (∀ calls, answers calls w =
      .ok ((List.range calls).map fun i => (PioBlock.setBits w)[i]?)) ∧
    (PioBlock.setBits w).length ≤ 32 ∧
    (PioBlock.setBits w).Pairwise (· < ·) ∧
    (∀ i, i ∈ PioBlock.setBits w ↔ ∃ below : i < 32, w[i] = true) ∧
    ((PioBlock.setBits w).map (2 ^ ·)).sum = w.toNat := by
  refine ⟨fun calls => answers_eq_ok calls w, ?_, pairwise_setBits w, fun i => ?_,
    sum_two_pow_setBits w⟩
  · exact (List.length_filter_le ..).trans_eq List.length_range
  · rw [mem_setBits]
    constructor
    · intro one
      exact ⟨BitVec.lt_of_getLsbD one, BitVec.getLsbD_eq_getElem (BitVec.lt_of_getLsbD one) ▸ one⟩
    · rintro ⟨below, one⟩
      rw [BitVec.getLsbD_eq_getElem below, one]

example : answers 5 0x80000015 = .ok [some 0, some 2, some 4, some 31, none] := by decide +kernel

end Checked

end PioBlock
