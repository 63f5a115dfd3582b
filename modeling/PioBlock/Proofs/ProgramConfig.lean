import PioBlock.Proofs.Fields
import PioBlock.Proofs.Slots
import PioBlock.Config

/-! The configuration for a program. It exists at every offset within the memory, for the side-set
of a program always fits, and its wrap is that of the program, moved by the offset when the program
may be relocated: the side-set fields lie apart from the two of the wrap. -/

namespace PioBlock.Config

theorem check_of_le {part : ConfigPart} {value max : Nat} (h : value ≤ max) :
    check part value max = .ok () := check_eq_ok_iff.mpr h

theorem on_setWrap {target wrap : Nat} (ht : target < 32) (hw : wrap < 32) (c : Config) :
    ∃ c', (setWrap target wrap).on c = (.ok (), c') ∧ c'.wrap = (target, wrap) := by
  have set : setWrap target wrap = modify fun c => { c with
      execctrl := Layout.wrapTop.insert (Layout.wrapBottom.insert c.execctrl (number target))
        (number wrap) } := by
    rw [setWrap, check_of_le (by omega), check_of_le (by omega)]
    rfl
  rw [set]
  refine ⟨_, Setter.on_modify _ c, ?_⟩
  have apart : Layout.wrapBottom.Apart Layout.wrapTop := by decide
  rw [Config.wrap, Field.extract_insert_of_apart apart, number, number,
    Field.toNat_extract_insert _ ht, Field.toNat_extract_insert _ hw]

theorem on_setSideset {s : SideSet} (fits : s.totalBits ≤ 5) (c : Config) :
    ∃ c', (setSideset s.totalBits s.isOptional s.pindirs).on c = (.ok (), c') ∧
      c'.wrap = c.wrap := by
  have enabled : ¬(s.isOptional = true ∧ s.totalBits = 0) := by
    rintro ⟨optional, none⟩
    rw [SideSet.totalBits, optional] at none
    cases none
  have set : setSideset s.totalBits s.isOptional s.pindirs = modify fun c => { c with
      pinctrl := Layout.sidesetCount.insert c.pinctrl (number s.totalBits)
      execctrl := Layout.sidePindir.insert (Layout.sideEnable.insert c.execctrl (flag s.isOptional))
        (flag s.pindirs) } := by
    rw [setSideset, check_of_le fits, if_neg enabled]
    rfl
  rw [set]
  refine ⟨_, Setter.on_modify _ c, ?_⟩
  have bottom : Layout.wrapBottom.Apart Layout.sidePindir ∧
      Layout.wrapBottom.Apart Layout.sideEnable := by decide
  have top : Layout.wrapTop.Apart Layout.sidePindir ∧
      Layout.wrapTop.Apart Layout.sideEnable := by decide
  simp only [Config.wrap, Field.extract_insert_of_apart, bottom.1, bottom.2, top.1, top.2]

def placedWrap (p : Program) (offset : Nat) : Slot × Slot :=
  if p.isRelocatable then (slotAt offset p.wrapTarget.val, slotAt offset p.wrap.val)
  else (p.wrapTarget, p.wrap)

theorem forProgram_eq_ok (p : Program) {offset : Nat} (lt : offset < 32) :
    ∃ c, forProgram p offset = .ok c ∧
      c.wrap = ((placedWrap p offset).1.val, (placedWrap p offset).2.val) := by
  have moved : ∀ s : Slot, (s.val + if p.isRelocatable then offset else 0) % 32 < 32 := fun s =>
    Nat.mod_lt _ (by decide)
  obtain ⟨c, wraps, wrapped⟩ := on_setWrap (moved p.wrapTarget) (moved p.wrap) reset
  obtain ⟨c', sides, kept⟩ := on_setSideset p.sideSet_le c
  refine ⟨c', ?_, ?_⟩
  · rw [forProgram, check_of_le (by omega)]
    exact Setter.apply_eq_ok_iff.mpr ((Setter.on_bind wraps _).trans sides)
  · rw [kept, wrapped, placedWrap]
    split
    · simp only [slotAt_val, Nat.add_comm offset]
    · simp only [Nat.add_zero, Nat.mod_eq_of_lt p.wrapTarget.isLt, Nat.mod_eq_of_lt p.wrap.isLt]

end PioBlock.Config
