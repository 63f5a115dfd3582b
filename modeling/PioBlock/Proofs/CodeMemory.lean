import PioBlock.Proofs.Hosting
import PioBlock.Proofs.Slots
import Mathlib.Data.List.Nodup

/-! The instruction memory of a hosted block. An access outside the slots keeps every word of it.
Writing a program to its slots keeps the words of all other slots, wherever it fails, and where it
does not fail each instruction stands in its slot. -/

namespace PioBlock

namespace Program

/-- The word that an instruction of the program becomes when it is loaded at `offset`. -/
def wordFor (p : Program) (offset : Nat) (i : Instruction) : Word :=
  (if p.isRelocatable then i.relocate offset else i).setWidth 32

def stores (p : Program) (offset : Nat) : List (PioRegister × Word) :=
  p.instructions.zipIdx.map fun (i, n) => (.instrMem (slotAt offset n), p.wordFor offset i)

theorem loadWrites_eq (base : Word) (p : Program) (offset : Nat) :
    Control.loadWrites base p offset =
      (p.stores offset).map fun store => (Layout.address base store.1.index, store.2) := by
  rw [Control.loadWrites, loaded, stores, List.map_map, List.map_map]
  rfl

theorem stored_eq (p : Program) (offset : Nat) :
    (p.stores offset).map Prod.fst =
      (List.range p.length).map fun n => .instrMem (slotAt offset n) := by
  rw [stores, List.map_map, List.range_eq_range', length, ← List.zipIdx_map_snd 0, List.map_map]
  rfl

theorem mem_stored {p : Program} {offset : Nat} {slot : Slot} :
    .instrMem slot ∈ (p.stores offset).map Prod.fst ↔ slot ∈ p.slotSet offset := by
  simp [stored_eq, mem_slotSet]

theorem nodup_stored (p : Program) (offset : Nat) : ((p.stores offset).map Prod.fst).Nodup := by
  have len := p.length_le
  rw [stored_eq]
  refine List.Nodup.map_on (fun m hm n hn same => ?_) List.nodup_range
  rw [List.mem_range] at hm hn
  exact slotAt_injOn (by omega) (by omega) (PioRegister.instrMem.inj same)

theorem mem_stores {p : Program} (offset : Nat) {n : Nat} {i : Instruction}
    (h : p.instructions[n]? = some i) :
    (.instrMem (slotAt offset n), p.wordFor offset i) ∈ p.stores offset :=
  List.mem_map.mpr ⟨(i, n), List.mem_zipIdx_iff_getElem?.mpr h, rfl⟩

theorem mem_slotSet_of_getElem? {p : Program} (offset : Nat) {n : Nat} {i : Instruction}
    (h : p.instructions[n]? = some i) : slotAt offset n ∈ p.slotSet offset :=
  mem_slotSet.mpr ⟨n, (List.getElem?_eq_some_iff.mp h).1, rfl⟩

end Program

theorem Control.clearWrites_eq (base : Word) :
    Control.clearWrites base =
      ((List.finRange 32).map fun slot => (PioRegister.instrMem slot, 0)).map fun store =>
        (Layout.address base store.1.index, store.2) := by
  rw [Control.clearWrites, List.map_map]
  rfl

namespace Dispatch

variable {β : Type} [RegisterBlock β] {d : Dispatch β} {position pio : Nat} {base : Word}

/-- PIO block `pio` is hosted at a position, and these are the words of its slots. -/
def HoldsCode (d : Dispatch β) (position pio : Nat) (base : Word) (code : Slot → Word) : Prop :=
  ∃ words, d.Holds position pio base words ∧ ∀ slot, words (.instrMem slot) = code slot

namespace HoldsCode

variable {code : Slot → Word}

theorem wordAt_eq (holds : d.HoldsCode position pio base code) (slot : Slot) :
    d.wordAt position (.instrMem slot) = some (code slot) := by
  obtain ⟨words, holds, agree⟩ := holds
  rw [holds.wordAt_eq, agree]

variable [LawfulBlock β]

theorem read_outside (holds : d.HoldsCode position pio base code)
    (window : Layout.IsWindow base) {address : Word}
    (outside : Scope.outsideCode.Reads base address) :
    (RegisterSpace.read address d).2.HoldsCode position pio base code := by
  obtain ⟨words, holds, agree⟩ := holds
  obtain ⟨r, apart, rfl⟩ := outside
  obtain ⟨words', holds', kept⟩ := holds.read window r
  exact ⟨words', holds', fun slot => (kept _ (apart slot).symm).trans (agree slot)⟩

theorem write_outside (holds : d.HoldsCode position pio base code)
    (window : Layout.IsWindow base) {address : Word} {w : MaskedWrite}
    (outside : Scope.outsideCode.Writes base address w) :
    (RegisterSpace.write address w d).2.HoldsCode position pio base code := by
  obtain ⟨words, holds, agree⟩ := holds
  have reached : ∃ (r : PioRegister) (a : Alias), (∀ slot, r ≠ .instrMem slot) ∧
      address = Layout.address base r.index ||| a.bits := by
    rcases outside with ⟨r, a, value, apart, rfl, -⟩ | ⟨r, apart, rfl⟩
    · exact ⟨r, a, apart, rfl⟩
    · exact ⟨r, .plain, apart, (Layout.or_bits_plain _).symm⟩
  obtain ⟨r, a, apart, rfl⟩ := reached
  obtain ⟨words', holds', kept, -⟩ := holds.write window r a w
  exact ⟨words', holds', fun slot => (kept _ (apart slot).symm).trans (agree slot)⟩

theorem writeProgram (holds : d.HoldsCode position pio base code)
    (window : Layout.IsWindow base) (p : Program) (offset : Nat) :
    ∃ code', ((Transaction.writeAll (Control.loadWrites base p offset)).run.run
        d).space.HoldsCode position pio base code' ∧
      (∀ slot, slot ∉ p.slotSet offset → code' slot = code slot) ∧
      (((Transaction.writeAll (Control.loadWrites base p offset)).run.run d).value = .ok () →
        ∀ n i, p.instructions[n]? = some i → code' (slotAt offset n) = p.wordFor offset i) := by
  obtain ⟨words, holds, agree⟩ := holds
  rw [Program.loadWrites_eq]
  obtain ⟨words', holds', kept, stored⟩ := holds.writeAll window (p.stores offset)
  refine ⟨fun slot => words' (.instrMem slot), ⟨words', holds', fun _ => rfl⟩, ?_, ?_⟩
  · intro slot apart
    rw [← agree]
    exact kept _ fun h => apart (Program.mem_stored.mp h)
  · intro done n i at_n
    have at_slot := stored done (p.nodup_stored offset) _ (Program.mem_stores offset at_n)
    exact at_slot.trans (Alias.apply_write_plain _ _)

end HoldsCode

theorem HoldsCode.clear [LawfulBlock β] {code : Slot → Word}
    (holds : d.HoldsCode position pio base code) (window : Layout.IsWindow base) :
    ∃ code', ((Transaction.writeAll (Control.clearWrites base)).run.run d).space.HoldsCode
      position pio base code' := by
  obtain ⟨words, holds, -⟩ := holds
  rw [Control.clearWrites_eq]
  obtain ⟨words', holds', -⟩ := holds.writeAll window _
  exact ⟨_, words', holds', fun _ => rfl⟩

end Dispatch

end PioBlock
