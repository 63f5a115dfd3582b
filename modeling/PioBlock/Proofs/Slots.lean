import PioBlock.Occupancy
import Mathlib.Data.Fintype.Basic
import Mathlib.Data.Finset.Image
import Mathlib.Data.Finset.Card

/-! The masks of the slot allocator read as finite sets of slots. Three masks are computed apart
from each other: the one that a program asks for, the one taken for it, and the one given back.
All of them denote `Program.slotSet`, the slots from the load offset on, around the end of the
memory. -/

namespace PioBlock

theorem slot_bound (offset n : Nat) : (offset + n) % 32 < 32 := Nat.mod_lt _ (by decide)

/-- The slot `n` places after `offset`, around the end of the memory. -/
def slotAt (offset n : Nat) : Slot := ⟨(offset + n) % 32, slot_bound offset n⟩

theorem slotAt_val (offset n : Nat) : (slotAt offset n).val = (offset + n) % 32 := rfl

theorem slotAt_injOn {offset m n : Nat} (hm : m < 32) (hn : n < 32)
    (h : slotAt offset m = slotAt offset n) : m = n := by
  have hval : (offset + m) % 32 = (offset + n) % 32 := congrArg Fin.val h
  omega

theorem slotAt_zero (s : Slot) : slotAt 0 s.val = s := by
  apply Fin.ext
  rw [slotAt_val, Nat.zero_add, Nat.mod_eq_of_lt s.isLt]

theorem slotAt_slotAt_zero (offset n : Nat) : slotAt offset (slotAt 0 n).val = slotAt offset n := by
  apply Fin.ext
  simp only [slotAt_val]
  omega

theorem slotAt_succ (offset n : Nat) : slotAt (slotAt offset n).val 1 = slotAt offset (n + 1) := by
  apply Fin.ext
  simp only [slotAt_val]
  omega

def slotsOf (w : Word) : Finset Slot := Finset.univ.filter fun s => w.getLsbD s.val = true

@[simp] theorem mem_slotsOf {w : Word} {s : Slot} : s ∈ slotsOf w ↔ w.getLsbD s.val = true := by
  simp [slotsOf]

theorem slotsOf_or (v w : Word) : slotsOf (v ||| w) = slotsOf v ∪ slotsOf w := by
  ext s
  simp

theorem slotsOf_and_not (v w : Word) : slotsOf (v &&& ~~~w) = slotsOf v \ slotsOf w := by
  ext s
  simp [s.isLt]

theorem length_setBits (w : Word) : (setBits w).length = (slotsOf w).card := by
  have nodup : (setBits w).Nodup := List.nodup_range.filter _
  have same : (slotsOf w).map Fin.valEmbedding = (setBits w).toFinset := by
    ext i
    simp only [Finset.mem_map, mem_slotsOf, Fin.valEmbedding_apply, List.mem_toFinset, mem_setBits]
    constructor
    · rintro ⟨slot, one, rfl⟩
      exact one
    · exact fun one => ⟨⟨i, BitVec.lt_of_getLsbD one⟩, one, rfl⟩
  rw [← List.toFinset_card_of_nodup nodup, ← same, Finset.card_map]

theorem slotsOf_injective : Function.Injective slotsOf := by
  intro v w h
  apply BitVec.eq_of_getLsbD_eq
  intro i hi
  have hs := Finset.ext_iff.mp h ⟨i, hi⟩
  simp only [mem_slotsOf] at hs
  exact Bool.eq_iff_iff.mpr hs

theorem isFree_iff_disjoint {v w : Word} :
    isFree v w = true ↔ Disjoint (slotsOf v) (slotsOf w) := by
  rw [isFree_iff, Finset.disjoint_left]
  constructor
  · intro h s hv hw
    have := h s.val (by simpa using hv)
    simp_all
  · intro h i hv
    have hi := BitVec.lt_of_getLsbD hv
    simpa using @h ⟨i, hi⟩ (by simpa using hv)

theorem and_eq_right_iff_subset {v w : Word} : v &&& w = w ↔ slotsOf w ⊆ slotsOf v := by
  have meet : slotsOf (v &&& w) = slotsOf v ∩ slotsOf w := by
    ext s
    simp
  rw [← slotsOf_injective.eq_iff, meet, Finset.inter_eq_right]

/-- Giving back what was just taken from the free slots leaves the taken ones as they were. -/
theorem or_and_not_cancel {v w : Word} (h : isFree v w = true) : (v ||| w) &&& ~~~w = v := by
  apply slotsOf_injective
  rw [slotsOf_and_not, slotsOf_or, Finset.union_sdiff_right]
  exact Finset.sdiff_eq_self_of_disjoint (isFree_iff_disjoint.mp h)

namespace Program

/-- The slots that the instructions of the program go to when it is loaded at `offset`. -/
def slotSet (p : Program) (offset : Nat) : Finset Slot :=
  (Finset.range p.length).image (slotAt offset)

theorem mem_slotSet {p : Program} {offset : Nat} {s : Slot} :
    s ∈ p.slotSet offset ↔ ∃ n < p.length, slotAt offset n = s := by
  simp [slotSet]

theorem length_le (p : Program) : p.length ≤ 32 := p.instructions_le

theorem slotsOf_slotsAt (p : Program) (offset : Nat) :
    slotsOf (p.slotsAt offset) = p.slotSet offset := by
  ext s
  have len := p.length_le
  have lt := s.isLt
  rw [mem_slotsOf, mem_slotSet, slotsAt, baseMask, BitVec.getLsbD_rotateLeft]
  simp only [getLsbD_lowBits, Fin.ext_iff, slotAt_val]
  by_cases below : s.val < offset % 32
  · simp only [below, decide_true, cond_true, Bool.and_eq_true, decide_eq_true_eq]
    constructor
    · exact fun h => ⟨32 - offset % 32 + s.val, h.2, by omega⟩
    · rintro ⟨n, hn, hs⟩
      omega
  · simp only [below, decide_false, cond_false, Bool.and_eq_true, decide_eq_true_eq]
    constructor
    · exact fun h => ⟨s.val - offset % 32, h.2.2, by omega⟩
    · rintro ⟨n, hn, hs⟩
      omega

theorem card_slotSet (p : Program) (offset : Nat) : (p.slotSet offset).card = p.length := by
  rw [slotSet, Finset.card_image_of_injOn, Finset.card_range]
  intro m hm n hn same
  have len := p.length_le
  rw [Finset.coe_range, Set.mem_Iio] at hm hn
  exact slotAt_injOn (by omega) (by omega) same

theorem length_setBits_allocationMask (p : Program) :
    (setBits p.allocationMask).length = p.length := by
  rw [length_setBits, ← p.card_slotSet p.start, ← slotsOf_slotsAt]
  rfl

theorem slotSet_nonempty (p : Program) (offset : Nat) : (p.slotSet offset).Nonempty :=
  ⟨slotAt offset 0, mem_slotSet.mpr ⟨0, p.instructions_pos, rfl⟩⟩

end Program

end PioBlock
