import PioBlock.Proofs.Slots

/-! Relocated instructions. An instruction consists of its five operand bits and the rest. A
relocation keeps the rest, which tells jumps from other instructions, and adds to the operand of a
jump modulo 32; so relocations compose like the offsets do, and the targets of jumps move as the
slots of a program move. -/

namespace PioBlock.Instruction

variable {i w : Instruction}

theorem eq_of_parts (rest : i &&& ~~~operandMask = w &&& ~~~operandMask)
    (operand : i &&& operandMask = w &&& operandMask) : i = w := by
  apply BitVec.eq_of_getLsbD_eq
  intro j hj
  have r := congrArg (·.getLsbD j) rest
  have o := congrArg (·.getLsbD j) operand
  simp only [BitVec.getLsbD_and, BitVec.getLsbD_not, hj] at r o
  cases hm : operandMask.getLsbD j with
  | false => simpa [hm] using r
  | true => simpa [hm] using o

theorem join_and_not_operandMask (i v : Instruction) :
    ((i &&& ~~~operandMask) ||| (v &&& operandMask)) &&& ~~~operandMask =
      i &&& ~~~operandMask := by
  apply BitVec.eq_of_getLsbD_eq
  intro j hj
  simp only [BitVec.getLsbD_and, BitVec.getLsbD_or, BitVec.getLsbD_not, hj]
  cases operandMask.getLsbD j <;> simp

theorem join_and_operandMask (i v : Instruction) :
    ((i &&& ~~~operandMask) ||| (v &&& operandMask)) &&& operandMask = v &&& operandMask := by
  apply BitVec.eq_of_getLsbD_eq
  intro j hj
  simp only [BitVec.getLsbD_and, BitVec.getLsbD_or, BitVec.getLsbD_not, hj]
  cases operandMask.getLsbD j <;> simp

theorem toNat_and_operandMask (i : Instruction) : (i &&& operandMask).toNat = i.toNat % 32 := by
  rw [BitVec.toNat_and]
  exact Nat.and_two_pow_sub_one_eq_mod i.toNat 5

theorem target_val (i : Instruction) : i.target.val = i.toNat % 32 := by
  simp only [target, toNat_and_operandMask, Nat.mod_mod]

theorem relocate_and_not_operandMask (offset : Nat) (i : Instruction) :
    i.relocate offset &&& ~~~operandMask = i &&& ~~~operandMask := by
  unfold relocate
  split
  · exact join_and_not_operandMask i _
  · rfl

theorem isJmp_congr (rest : i &&& ~~~operandMask = w &&& ~~~operandMask) :
    i.isJmp = w.isJmp := by
  have opcode : ∀ v : Instruction, v &&& 0xe000 = v &&& ~~~operandMask &&& 0xe000 := fun v => by
    rw [BitVec.and_assoc]
    rfl
  rw [isJmp, isJmp, opcode i, opcode w, rest]

theorem isJmp_relocate (offset : Nat) (i : Instruction) :
    (i.relocate offset).isJmp = i.isJmp :=
  isJmp_congr (relocate_and_not_operandMask offset i)

theorem toNat_relocate_mod (jumps : i.isJmp = true) (offset : Nat) :
    (i.relocate offset).toNat % 32 = (i.toNat + offset) % 32 := by
  rw [← toNat_and_operandMask, relocate, if_pos jumps, join_and_operandMask,
    toNat_and_operandMask, BitVec.toNat_add, BitVec.toNat_ofNat, toNat_and_operandMask]
  omega

theorem target_relocate (jumps : i.isJmp = true) (offset : Nat) :
    (i.relocate offset).target = slotAt offset i.target.val := by
  apply Fin.ext
  have moved := toNat_relocate_mod jumps offset
  rw [target_val, moved, slotAt_val, target_val]
  omega

theorem relocate_relocate (a b : Nat) (i : Instruction) :
    (i.relocate a).relocate b = i.relocate ((a + b) % 32) := by
  cases jumps : i.isJmp with
  | false =>
    have still : (i.relocate a).isJmp = false := (isJmp_relocate a i).trans jumps
    rw [relocate_of_not_isJmp still, relocate_of_not_isJmp jumps, relocate_of_not_isJmp jumps]
  | true =>
    refine eq_of_parts ?_ (BitVec.eq_of_toNat_eq ?_)
    · simp only [relocate_and_not_operandMask]
    · have first := toNat_relocate_mod jumps a
      have second := toNat_relocate_mod ((isJmp_relocate a i).trans jumps) b
      have both := toNat_relocate_mod jumps ((a + b) % 32)
      rw [toNat_and_operandMask, toNat_and_operandMask, second, both]
      omega

end PioBlock.Instruction
