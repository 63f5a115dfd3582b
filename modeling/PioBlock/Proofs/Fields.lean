import PioBlock.MaskedWrite
import Mathlib.Algebra.Group.Nat.Defs

/-! Fields as lenses. What was put into a field is what is read out of it, cut to its width, and
nothing else in the word changes. Two fields do not notice each other exactly when they share no
bit. -/

namespace PioBlock.Field

def Apart (f g : Field) : Prop := f.lsb + f.width ≤ g.lsb ∨ g.lsb + g.width ≤ f.lsb

instance (f g : Field) : Decidable (Apart f g) := inferInstanceAs (Decidable (_ ∨ _))

theorem Apart.symm {f g : Field} (apart : f.Apart g) : g.Apart f := Or.symm apart

theorem apart_iff_covers {f g : Field} :
    f.Apart g ↔ ∀ i, f.covers i = true → g.covers i = false := by
  simp only [covers_eq_true, covers_eq_false]
  constructor
  · intro apart i inside
    unfold Apart at apart
    omega
  · intro outside
    have first := outside f.lsb
    have second := outside g.lsb
    have := f.width_pos
    have := g.width_pos
    unfold Apart
    omega

theorem apart_iff_and_mask {f g : Field} : f.Apart g ↔ f.mask &&& g.mask = 0 := by
  rw [apart_iff_covers]
  constructor
  · intro outside
    refine and_eq_zero_of_apart fun i inF inG => ?_
    rw [getLsbD_mask] at inF inG
    rw [outside i inF] at inG
    cases inG
  · intro disjoint i inF
    have shared : (f.mask &&& g.mask).getLsbD i = g.covers i := by
      rw [BitVec.getLsbD_and, getLsbD_mask, getLsbD_mask, inF, Bool.true_and]
    rw [disjoint] at shared
    exact shared.symm.trans BitVec.getLsbD_zero

theorem extract_insert (f : Field) (w v : Word) : f.extract (f.insert w v) = v &&& f.max := by
  apply BitVec.eq_of_getLsbD_eq
  intro j hj
  rw [getLsbD_extract, getLsbD_insert, BitVec.getLsbD_and, max, getLsbD_lowBits]
  have there : f.covers (f.lsb + j) = decide (j < f.width) := by simp [covers]
  rw [there, Nat.add_sub_cancel_left]
  by_cases inside : j < f.width <;> simp [inside, hj]

theorem getLsbD_of_covers {f : Field} {i : Nat} (inside : f.covers i = true) (w : Word) :
    w.getLsbD i = (f.extract w).getLsbD (i - f.lsb) := by
  obtain ⟨low, high⟩ := covers_eq_true.mp inside
  rw [getLsbD_extract, decide_eq_true (by omega), Bool.true_and, Nat.add_sub_cancel' low]

theorem insert_extract (f : Field) (w : Word) : f.insert w (f.extract w) = w := by
  apply BitVec.eq_of_getLsbD_eq
  intro i _
  rw [getLsbD_insert]
  split
  · next inside => exact (getLsbD_of_covers inside w).symm
  · rfl

theorem insert_insert (f : Field) (w u v : Word) : f.insert (f.insert w u) v = f.insert w v := by
  apply BitVec.eq_of_getLsbD_eq
  intro i _
  simp only [getLsbD_insert]
  cases f.covers i <;> rfl

theorem getLsbD_insert_of_outside {f : Field} {i : Nat} (outside : f.covers i = false)
    (w v : Word) : (f.insert w v).getLsbD i = w.getLsbD i := by
  rw [getLsbD_insert, outside, if_neg (by decide)]

theorem extract_insert_of_apart {f g : Field} (apart : f.Apart g) (w v : Word) :
    f.extract (g.insert w v) = f.extract w := by
  apply BitVec.eq_of_getLsbD_eq
  intro j _
  rw [getLsbD_extract, getLsbD_extract]
  by_cases inside : j < f.width
  · have inF : f.covers (f.lsb + j) = true := covers_eq_true.mpr (by omega)
    rw [getLsbD_insert_of_outside (apart_iff_covers.mp apart _ inF)]
  · simp [inside]

theorem insert_insert_of_apart {f g : Field} (apart : f.Apart g) (w v u : Word) :
    f.insert (g.insert w u) v = g.insert (f.insert w v) u := by
  apply BitVec.eq_of_getLsbD_eq
  intro i _
  simp only [getLsbD_insert]
  cases inF : f.covers i with
  | false => rfl
  | true =>
    rw [apart_iff_covers.mp apart i inF]
    rfl

theorem apart_of_insert_insert {f g : Field}
    (commute : ∀ w v u, f.insert (g.insert w u) v = g.insert (f.insert w v) u) : f.Apart g := by
  rw [apart_iff_covers]
  intro i inF
  have inside : i < 32 := Nat.lt_of_lt_of_le (covers_eq_true.mp inF).2 f.in_word
  have bit := congrArg (·.getLsbD i) (commute 0 allBits 0)
  simp only [getLsbD_insert, inF, if_true, getLsbD_allBits] at bit
  cases inG : g.covers i with
  | false => rfl
  | true =>
    rw [inG, if_pos rfl, decide_eq_true (Nat.lt_of_le_of_lt (Nat.sub_le ..) inside)] at bit
    exact bit.trans BitVec.getLsbD_zero

theorem toNat_and_max (f : Field) (v : Word) : (v &&& f.max).toNat = v.toNat % 2 ^ f.width := by
  refine Nat.eq_of_testBit_eq fun i => ?_
  change (v &&& f.max).getLsbD i = _
  rw [BitVec.getLsbD_and, max, getLsbD_lowBits, Nat.testBit_mod_two_pow]
  change _ = (decide (i < f.width) && v.getLsbD i)
  by_cases inside : i < 32
  · rw [decide_eq_true inside, Bool.true_and, Bool.and_comm]
  · rw [BitVec.getLsbD_of_ge v i (Nat.le_of_not_lt inside), Bool.false_and, Bool.and_false]

theorem and_max_of_lt {f : Field} {v : Word} (fits : v.toNat < 2 ^ f.width) :
    v &&& f.max = v := by
  apply BitVec.eq_of_toNat_eq
  rw [toNat_and_max, Nat.mod_eq_of_lt fits]

theorem toNat_extract_insert {f : Field} (w : Word) {n : Nat} (fits : n < 2 ^ f.width) :
    (f.extract (f.insert w (BitVec.ofNat 32 n))).toNat = n := by
  have bounds := f.in_word
  have below : n < 2 ^ 32 :=
    Nat.lt_of_lt_of_le fits (Nat.pow_le_pow_right (by decide) (by omega))
  rw [extract_insert, toNat_and_max, BitVec.toNat_ofNat, Nat.mod_eq_of_lt below,
    Nat.mod_eq_of_lt fits]

theorem isSet_eq_of_extract_eq {f : Field} {w w' : Word} (same : f.extract w' = f.extract w) :
    f.isSet w' = f.isSet w := by rw [isSet, isSet, same]

theorem isSet_eq_getLsbD {f : Field} (flag : f.width = 1) (w : Word) :
    f.isSet w = w.getLsbD f.lsb := by
  have low : (f.extract w).getLsbD 0 = w.getLsbD f.lsb := by
    rw [getLsbD_extract, flag]
    simp
  cases bit : w.getLsbD f.lsb with
  | true =>
    rw [isSet, bne_iff_ne]
    intro zero
    rw [zero, bit] at low
    cases low
  | false =>
    have zero : f.extract w = 0 := by
      apply BitVec.eq_of_getLsbD_eq
      intro i _
      rcases i with _ | i
      · exact low.trans bit
      · rw [getLsbD_extract, flag]
        simp
    rw [isSet, zero]
    rfl

/-- A field is a lens onto the values cut to its width, and putting a value into it is a masked
write of that value in place. Two fields have disjoint masks just when it does not matter which of
them is written first; then neither reads what was put into the other. -/
theorem lens_laws (f : Field) :
    (∀ w v, (f.extract (f.insert w v)).toNat = v.toNat % 2 ^ f.width) ∧
    (∀ w, f.insert w (f.extract w) = w) ∧
    (∀ w u v, f.insert (f.insert w u) v = f.insert w v) ∧
    (∀ w v i, i < f.lsb ∨ f.lsb + f.width ≤ i → (f.insert w v).getLsbD i = w.getLsbD i) ∧
    (∀ w v, f.insert w v = (MaskedWrite.mk (f.place v) f.mask false).apply w) ∧
    ∀ g : Field,
      (f.mask &&& g.mask = 0 ↔
        ∀ w v u, f.insert (g.insert w u) v = g.insert (f.insert w v) u) ∧
      (f.mask &&& g.mask = 0 → ∀ w v,
        f.extract (g.insert w v) = f.extract w ∧ g.extract (f.insert w v) = g.extract w) := by
  refine ⟨fun w v => ?_, f.insert_extract, f.insert_insert,
    fun w v i outside => getLsbD_insert_of_outside (covers_eq_false.mpr outside) w v,
    fun w v => (MaskedWrite.apply_field f v w).symm, fun g => ⟨?_, fun disjoint w v => ?_⟩⟩
  · rw [extract_insert, toNat_and_max]
  · rw [← apart_iff_and_mask]
    exact ⟨insert_insert_of_apart, apart_of_insert_insert⟩
  · have apart := apart_iff_and_mask.mpr disjoint
    exact ⟨extract_insert_of_apart apart w v, extract_insert_of_apart apart.symm w v⟩

theorem lens_laws_neighbours :
    let whole := Field.of 0 32
    let low := Field.of 20 6
    let high := Field.of 26 6
    (whole.extract (whole.insert 5 0xdeadbeef)).toNat = 0xdeadbeef ∧
    (low.insert 0xffffffff 0x1c5).getLsbD 26 = true ∧
    low.mask &&& high.mask = 0 ∧
    high.extract (low.insert 0xa5a5a5a5 0x1c5) = high.extract 0xa5a5a5a5 := by
  intro whole low high
  obtain ⟨readBack, -⟩ := lens_laws whole
  obtain ⟨-, -, -, outside, -, others⟩ := lens_laws low
  have disjoint : low.mask &&& high.mask = 0 := by decide
  refine ⟨readBack 5 0xdeadbeef, ?_, disjoint, ((others high).2 disjoint _ _).2⟩
  rw [outside _ _ 26 (by decide)]
  decide

end PioBlock.Field
