import PioBlock.Proofs.Keeping
import PioBlock.Proofs.Slots
import PioBlock.Proofs.Subjects

/-! The bits of registers that belong to a state machine, and those that an operation may touch. What
one state machine owns no other does, and the words that operations write are within the bits of
what they are about. -/

namespace PioBlock

def StateMachine.Strobes (sm : StateMachine) (bit : Nat) : Prop :=
  bit = sm.val ∨ bit = 4 + sm.val ∨ bit = 8 + sm.val

/-- The bits that belong to a state machine: its configuration and the instruction that it executes,
the entry of its TX queue, its strobes and its debug flags. -/
def StateMachine.Owns (sm : StateMachine) (r : PioRegister) (bit : Nat) : Prop :=
  match r with
  | .ctrl => sm.Strobes bit
  | .fdebug => bit = sm.val ∨ bit = 8 + sm.val ∨ bit = 16 + sm.val ∨ bit = 24 + sm.val
  | .txf owner => owner = sm
  | .machine owner register => owner = sm ∧ register ≠ .addr
  | _ => False

namespace Subject

/-- The bits that an operation on the subject may touch when it ends with the outcome. A program
has slots only once it is loaded. -/
def Touches (outcome : Except Failure Answer) (r : PioRegister) (bit : Nat) : Subject → Prop
  | .machine number => ∃ sm : StateMachine, sm.val = number ∧ sm.Owns r bit
  | .machines mask => r = .ctrl ∧ ∃ sm : StateMachine, mask.testBit sm.val = true ∧ sm.Strobes bit
  | .program p => ∃ offset slot, outcome = .ok (.number offset) ∧ slot ∈ p.slotSet offset ∧
      r = .instrMem slot
  | .memory => ∃ slot, r = .instrMem slot
  | .nothing => False

def Concerns (sm : StateMachine) : Subject → Prop
  | .machine number => number = sm.val
  | .machines mask => mask.testBit sm.val = true
  | .program _ | .memory | .nothing => False

instance (sm : StateMachine) : DecidablePred (Concerns sm) := fun subject => by
  cases subject <;> unfold Concerns <;> infer_instance

end Subject

theorem StateMachine.owns_disjoint {sm other : StateMachine} (ne : sm ≠ other) {r : PioRegister}
    {bit : Nat} (owns : sm.Owns r bit) : ¬ other.Owns r bit := by
  have distinct : sm.val ≠ other.val := fun same => ne (Fin.ext same)
  have := sm.isLt
  have := other.isLt
  cases r with
  | ctrl =>
    simp only [Owns, Strobes] at owns ⊢
    omega
  | fdebug =>
    simp only [Owns] at owns ⊢
    omega
  | txf owner =>
    simp only [Owns] at owns ⊢
    exact fun same => ne (owns.symm.trans same)
  | machine owner register =>
    simp only [Owns] at owns ⊢
    exact fun same => ne (owns.1.symm.trans same.1)
  | _ => exact owns.elim

theorem Subject.not_owns_of_touches {subject : Subject} {outcome : Except Failure Answer}
    {sm : StateMachine} (apart : ¬ subject.Concerns sm) {r : PioRegister} {bit : Nat}
    (touches : subject.Touches outcome r bit) : ¬ sm.Owns r bit := by
  cases subject with
  | machine number =>
    obtain ⟨other, rfl, owns⟩ := touches
    exact StateMachine.owns_disjoint (fun same => apart (congrArg Fin.val same)) owns
  | machines mask =>
    obtain ⟨rfl, other, member, strobes⟩ := touches
    have ne : other ≠ sm := fun same => apart (same ▸ member)
    exact StateMachine.owns_disjoint (r := .ctrl) ne strobes
  | program p =>
    obtain ⟨_, slot, -, -, rfl⟩ := touches
    exact id
  | memory =>
    obtain ⟨slot, rfl⟩ := touches
    exact id
  | nothing => exact touches.elim

theorem MachineSet.exists_has_of_place {f : Field} {machines : MachineSet} {bit : Nat}
    (one : (f.place machines.word).getLsbD bit = true) :
    ∃ sm : StateMachine, machines.has sm = true ∧ bit = f.lsb + sm.val := by
  rw [Field.getLsbD_place, Bool.and_eq_true, Field.covers_eq_true] at one
  obtain ⟨⟨low, -⟩, member⟩ := one
  rw [word, BitVec.getLsbD_setWidth, Bool.and_eq_true] at member
  have small := BitVec.lt_of_getLsbD member.2
  exact ⟨⟨bit - f.lsb, small⟩, member.2, by dsimp only; omega⟩

theorem Alias.getLsbD_apply_write {a : Alias} (indirect : a ≠ .plain) {value : Word} {bit : Nat}
    (zero : value.getLsbD bit = false) (old : Word) :
    ((a.write value).apply old).getLsbD bit = old.getLsbD bit := by
  rw [apply_write]
  cases a with
  | plain => exact absurd rfl indirect
  | toggle => simp only [result, BitVec.getLsbD_xor, zero, Bool.xor_false]
  | set => simp only [result, BitVec.getLsbD_or, zero, Bool.or_false]
  | clear =>
    by_cases inside : bit < 32
    · simp only [result, BitVec.getLsbD_and, BitVec.getLsbD_not, zero, inside, decide_true,
        Bool.not_false, Bool.and_true]
    · simp only [BitVec.getLsbD_of_ge _ bit (Nat.le_of_not_lt inside)]

namespace Scope

variable {may : PioRegister → Nat → Prop}

theorem writes_under {r : PioRegister} (all : ∀ bit, may r bit) (a : Alias) (value : Word) :
    (under may).writes r a value := fun _ bit outside => absurd (all bit) outside

theorem writes_under_of_ones {r : PioRegister} (kind : r.kind = .readWrite) {a : Alias}
    (indirect : a ≠ .plain) {value : Word} (ones : ∀ bit, value.getLsbD bit = true → may r bit) :
    (under may).writes r a value := by
  intro old bit outside
  have zero := Bool.eq_false_iff.mpr fun one => outside (ones bit one)
  rw [kind, RegisterKind.store]
  exact Alias.getLsbD_apply_write indirect zero old

theorem strobes_under {machines : MachineSet}
    (admitted : ∀ sm : StateMachine, machines.has sm = true → ∀ bit, sm.Strobes bit → may .ctrl bit) :
    (under may).Strobes machines := by
  have enable : ∀ bit, (Layout.smEnable.place machines.word).getLsbD bit = true → may .ctrl bit := by
    intro bit one
    obtain ⟨sm, member, rfl⟩ := MachineSet.exists_has_of_place one
    exact admitted sm member _ (Or.inl (Nat.zero_add _))
  have restart : ∀ bit, (Layout.smRestart.place machines.word).getLsbD bit = true →
      may .ctrl bit := by
    intro bit one
    obtain ⟨sm, member, rfl⟩ := MachineSet.exists_has_of_place one
    exact admitted sm member _ (Or.inr (Or.inl rfl))
  have dividers : ∀ bit, (Layout.clkdivRestart.place machines.word).getLsbD bit = true →
      may .ctrl bit := by
    intro bit one
    obtain ⟨sm, member, rfl⟩ := MachineSet.exists_has_of_place one
    exact admitted sm member _ (Or.inr (Or.inr rfl))
  refine ⟨fun on => ?_, writes_under_of_ones rfl (by decide) restart,
    writes_under_of_ones rfl (by decide) dividers,
    writes_under_of_ones rfl (by decide) fun bit one => ?_⟩
  · cases on with
    | true => exact writes_under_of_ones rfl (by decide) enable
    | false => exact writes_under_of_ones rfl (by decide) enable
  · rw [BitVec.getLsbD_or, Bool.or_eq_true] at one
    exact one.elim (dividers bit) (enable bit)

theorem flags_under {sm : StateMachine} (admitted : ∀ bit, sm.Owns .fdebug bit → may .fdebug bit) :
    (under may).writes .fdebug .plain (Control.debugFlags sm) := by
  have single {f : Field} {bit : Nat}
      (one : (f.place (MachineSet.word sm.single)).getLsbD bit = true) : bit = f.lsb + sm.val := by
    obtain ⟨other, member, rfl⟩ := MachineSet.exists_has_of_place one
    rw [MachineSet.has_single, decide_eq_true_eq] at member
    rw [member]
  have ones : ∀ bit, (Control.debugFlags sm).getLsbD bit = true → may .fdebug bit := by
    intro bit one
    simp only [Control.debugFlags, BitVec.getLsbD_or, Bool.or_eq_true] at one
    obtain ((stall | overflow) | underflow) | rxStall := one
    · exact admitted bit (Or.inr (Or.inr (Or.inr (single stall))))
    · exact admitted bit (Or.inr (Or.inr (Or.inl (single overflow))))
    · exact admitted bit (Or.inr (Or.inl (single underflow)))
    · exact admitted bit (Or.inl ((single rxStall).trans (Nat.zero_add _)))
  intro old bit outside
  have zero := Bool.eq_false_iff.mpr fun one => outside (ones bit one)
  rw [PioRegister.kind, RegisterKind.store, Alias.apply_write_plain, BitVec.getLsbD_and]
  by_cases inside : bit < 32
  · rw [BitVec.getLsbD_not, zero, decide_eq_true inside, Bool.not_false, Bool.and_true,
      Bool.and_true]
  · rw [BitVec.getLsbD_of_ge _ bit (Nat.le_of_not_lt inside), Bool.false_and]

theorem serves_under {sm : StateMachine} (admitted : ∀ r bit, sm.Owns r bit → may r bit) :
    (under may).Serves sm where
  strobes := strobes_under fun other member bit strobes => by
    rw [MachineSet.has_single, decide_eq_true_eq] at member
    exact admitted .ctrl bit (member ▸ strobes)
  writes {r a value} own := writes_under (fun bit => admitted (.machine sm r) bit ⟨rfl, own⟩) a value
  changes {r _} own := fun _ bit outside => absurd (admitted (.machine sm r) bit ⟨rfl, own⟩) outside
  queue value := writes_under (fun bit => admitted (.txf sm) bit rfl) .plain value
  flags := flags_under fun bit => admitted .fdebug bit

theorem admits_under (subject : Subject) (outcome : Except Failure Answer) :
    (under fun r bit => subject.Touches outcome r bit).Admits subject := by
  cases subject with
  | machine number => exact fun sm here => serves_under fun r bit owns => ⟨sm, here, owns⟩
  | machines mask =>
    intro machines found
    refine strobes_under fun sm member bit strobes => ⟨rfl, sm, ?_, strobes⟩
    unfold MachineSet.ofNat? at found
    split at found <;> cases found
    rw [MachineSet.has, BitVec.getLsbD_ofNat, Bool.and_eq_true] at member
    exact member.2
  | program p | memory | nothing => trivial

end Scope

end PioBlock
