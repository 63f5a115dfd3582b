import PioBlock.Proofs.Installation
import PioBlock.Proofs.Residents
import PioBlock.Proofs.Relocation

/-! The control flow of an installed program. A program has a flow graph of its own, written with
the slots that it has at offset 0. The flow graph read off the registers where a relocatable
program is installed is the image of that one under the shift of its slots, at any offset; so two
installations of a program differ by a shift and nothing else. -/

namespace PioBlock

inductive Passage where
  | next
  | wrap
  | jump
deriving DecidableEq, Repr

/-- The flow graph of a program, at offset 0. -/
inductive Program.Flow (p : Program) : Passage → Slot → Slot → Prop where
  | next {n : Nat} (inside : n < p.length) : p.Flow .next (slotAt 0 n) (slotAt 0 (n + 1))
  | wrap (inside : p.wrap.val < p.length) : p.Flow .wrap p.wrap p.wrapTarget
  | jump {n : Nat} {i : Instruction} (at_n : p.instructions[n]? = some i)
      (jumps : i.isJmp = true) : p.Flow .jump (slotAt 0 n) i.target

/-- The flow graph on some slots, as the registers of a block have it. -/
inductive Dispatch.Flow {β : Type} [RegisterBlock β] (d : Dispatch β) (position : Nat)
    (sm : StateMachine) (slots : Finset Slot) : Passage → Slot → Slot → Prop where
  | next {s : Slot} (inside : s ∈ slots) : d.Flow position sm slots .next s (slotAt s.val 1)
  | wrap {s t : Slot} (inside : s ∈ slots) (wraps : d.wrapAt position sm = some (t.val, s.val)) :
      d.Flow position sm slots .wrap s t
  | jump {s : Slot} {w : Word} (inside : s ∈ slots)
      (word : d.wordAt position (.instrMem s) = some w)
      (jumps : Instruction.isJmp (w.setWidth 16) = true) :
      d.Flow position sm slots .jump s (Instruction.target (w.setWidth 16))

namespace Dispatch.Carries

variable {β : Type} [RegisterBlock β] {d : Dispatch β} {position : Nat} {sm : StateMachine}
  {p : Program} {offset : Nat}

theorem wrapAt_eq (carries : d.Carries position sm p offset)
    (relocatable : p.isRelocatable = true) :
    d.wrapAt position sm =
      some ((slotAt offset p.wrapTarget.val).val, (slotAt offset p.wrap.val).val) := by
  rw [carries.wrap, Config.placedWrap, if_pos relocatable]

theorem wordAt_eq (carries : d.Carries position sm p offset)
    (relocatable : p.isRelocatable = true) {n : Nat} {i : Instruction}
    (at_n : p.instructions[n]? = some i) :
    d.wordAt position (.instrMem (slotAt offset n)) = some ((i.relocate offset).setWidth 32) := by
  rw [carries.word n i at_n, Program.wordFor, if_pos relocatable]

theorem flow_iff (carries : d.Carries position sm p offset)
    (relocatable : p.isRelocatable = true) {passage : Passage} {a b : Slot} :
    d.Flow position sm (p.slotSet offset) passage a b ↔
      ∃ a₀ b₀, p.Flow passage a₀ b₀ ∧ a = slotAt offset a₀.val ∧ b = slotAt offset b₀.val := by
  have len := p.length_le
  have narrow : ∀ i : Instruction, (i.setWidth 32).setWidth 16 = i := fun i => by
    rw [BitVec.setWidth_setWidth_of_le _ (by decide), BitVec.setWidth_eq]
  constructor
  · rintro (⟨inside⟩ | ⟨inside, wraps⟩ | ⟨inside, word, jumps⟩)
    all_goals obtain ⟨n, lt, rfl⟩ := Program.mem_slotSet.mp inside
    · refine ⟨_, _, .next lt, (slotAt_slotAt_zero offset n).symm, ?_⟩
      rw [slotAt_slotAt_zero, slotAt_succ]
    · rw [carries.wrapAt_eq relocatable] at wraps
      simp only [Option.some.injEq, Prod.mk.injEq] at wraps
      have same := slotAt_injOn p.wrap.isLt (by omega) (Fin.ext wraps.2)
      refine ⟨p.wrap, p.wrapTarget, .wrap (by omega), ?_, (Fin.ext wraps.1).symm⟩
      rw [same]
    · have at_n : p.instructions[n]? = some p.instructions[n] := List.getElem?_eq_getElem lt
      rw [carries.wordAt_eq relocatable at_n] at word
      cases word
      rw [narrow, Instruction.isJmp_relocate] at jumps
      refine ⟨_, _, .jump at_n jumps, (slotAt_slotAt_zero offset n).symm, ?_⟩
      rw [narrow, Instruction.target_relocate jumps]
  · rintro ⟨a₀, b₀, flow, rfl, rfl⟩
    cases flow with
    | next inside =>
      rw [slotAt_slotAt_zero, slotAt_slotAt_zero, ← slotAt_succ]
      exact .next (Program.mem_slotSet.mpr ⟨_, inside, rfl⟩)
    | wrap inside =>
      exact .wrap (Program.mem_slotSet.mpr ⟨_, inside, rfl⟩) (carries.wrapAt_eq relocatable)
    | @jump n i at_n jumps =>
      have there := Program.mem_slotSet_of_getElem? offset at_n
      have jumps' : Instruction.isJmp (((i.relocate offset).setWidth 32).setWidth 16) = true := by
        rwa [narrow, Instruction.isJmp_relocate]
      have edge : d.Flow position sm (p.slotSet offset) .jump _ _ :=
        .jump there (carries.wordAt_eq relocatable at_n) jumps'
      rwa [narrow, Instruction.target_relocate jumps, ← slotAt_slotAt_zero] at edge

theorem flow_zero_iff (carries : d.Carries position sm p 0) (relocatable : p.isRelocatable = true)
    {passage : Passage} {a b : Slot} :
    d.Flow position sm (p.slotSet 0) passage a b ↔ p.Flow passage a b := by
  rw [carries.flow_iff relocatable]
  simp only [slotAt_zero]
  constructor
  · rintro ⟨a₀, b₀, flow, rfl, rfl⟩
    exact flow
  · exact fun flow => ⟨a, b, flow, rfl, rfl⟩

end Dispatch.Carries

namespace Session

/-- A program is installed at any offset where it may stand. Where it is relocatable, its words
are in its slots but for the targets of jumps, the targets and the wrap moved with the slots, and
its flow graph is that of an installation at offset 0, moved likewise; where it has an origin, its
words and its wrap are as they were. Relocations add up. -/
theorem flow_of_installs {position pio : Nat} (polls : Nat) (sm : StateMachine) (p : Program)
    {s : Session (Dispatch RegisterFile)} (reaches : s.Reaches position pio) :
    (∀ offset, p.CanStandAt offset → Disjoint (slotsOf s.handle.occupancy) (p.slotSet offset) →
      ∃ t, s.Installs polls sm p offset t) ∧
    (p.isRelocatable = true → ∀ offset t, s.Installs polls sm p offset t →
      (∀ n i, p.instructions[n]? = some i → ∃ w : Instruction,
        t.space.wordAt position (.instrMem (slotAt offset n)) = some (w.setWidth 32) ∧
        w &&& ~~~Instruction.operandMask = i &&& ~~~Instruction.operandMask ∧
        (i.isJmp = true → w.isJmp = true ∧ w.target = slotAt offset i.target.val) ∧
        (i.isJmp = false → w = i)) ∧
      t.space.wrapAt position sm =
        some ((slotAt offset p.wrapTarget.val).val, (slotAt offset p.wrap.val).val) ∧
      ∀ s₀ t₀ : Session (Dispatch RegisterFile), s₀.Reaches position pio →
        s₀.Installs polls sm p 0 t₀ → ∀ passage a b,
        t.space.Flow position sm (p.slotSet offset) passage a b ↔
          ∃ a₀ b₀, t₀.space.Flow position sm (p.slotSet 0) passage a₀ b₀ ∧
            a = slotAt offset a₀.val ∧ b = slotAt offset b₀.val) ∧
    (p.isRelocatable = false → ∀ offset t, s.Installs polls sm p offset t →
      (∀ n i, p.instructions[n]? = some i →
        t.space.wordAt position (.instrMem (slotAt offset n)) = some (i.setWidth 32)) ∧
      t.space.wrapAt position sm = some (p.wrapTarget.val, p.wrap.val)) ∧
    ∀ (i : Instruction) a b, (i.relocate a).relocate b = i.relocate ((a + b) % 32) := by
  refine ⟨fun _ stand free => installs_of_disjoint reaches polls sm stand free, ?_, ?_,
    fun i a b => Instruction.relocate_relocate a b i⟩
  · intro relocatable offset t installs
    have carries := carries_of_installs reaches installs
    refine ⟨?_, carries.wrapAt_eq relocatable, ?_⟩
    · intro n i at_n
      refine ⟨i.relocate offset, carries.wordAt_eq relocatable at_n,
        Instruction.relocate_and_not_operandMask offset i, ?_, ?_⟩
      · intro jumps
        exact ⟨(Instruction.isJmp_relocate offset i).trans jumps,
          Instruction.target_relocate jumps offset⟩
      · exact fun other => Instruction.relocate_of_not_isJmp other offset
    · intro s₀ t₀ reaches₀ installs₀ passage a b
      have carries₀ := carries_of_installs reaches₀ installs₀
      rw [carries.flow_iff relocatable]
      simp only [carries₀.flow_zero_iff relocatable]
  · intro fixed offset t installs
    have carries := carries_of_installs reaches installs
    constructor
    · intro n i at_n
      rw [carries.word n i at_n, Program.wordFor, fixed, if_neg (by decide)]
    · rw [carries.wrap, Config.placedWrap, fixed, if_neg (by decide)]

theorem flow_of_installs_sampleLoop :
    (fresh (Handle.at_ 0 0x50200000) (Dispatch.mk [RegisterFile.pioAt 0 0x50200000])).Reaches 0 0 ∧
    ∃ t, (fresh (Handle.at_ 0 0x50200000)
        (Dispatch.mk [RegisterFile.pioAt 0 0x50200000])).Installs 1 0 sampleLoop 31 t ∧
      t.space.wrapAt 0 0 = some (31, 0) ∧
      ∃ w : Instruction, t.space.wordAt 0 (.instrMem 0) = some (w.setWidth 32) ∧ w.target = 31 := by
  have reaches : (fresh (Handle.at_ 0 0x50200000)
      (Dispatch.mk [RegisterFile.pioAt 0 0x50200000])).Reaches 0 0 := by
    refine ⟨rfl, _, rfl, rfl, ?_, ?_, fun _ h => nomatch h⟩
    · decide +kernel
    · decide +kernel
  obtain ⟨install, moved, -⟩ := flow_of_installs 1 0 sampleLoop reaches
  obtain ⟨t, installs⟩ := install 31 ⟨by decide, nofun⟩ (by decide +kernel)
  obtain ⟨words, wraps, -⟩ := moved rfl 31 t installs
  obtain ⟨w, word, -, jumps, -⟩ := words 1 0x0000 rfl
  exact ⟨reaches, t, installs, wraps, w, word, (jumps rfl).2⟩

end Session

end PioBlock
