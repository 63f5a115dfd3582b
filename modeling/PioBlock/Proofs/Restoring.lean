import PioBlock.Proofs.Faults
import PioBlock.Proofs.Hosting
import PioBlock.Proofs.Pads

/-! What the pin helpers leave behind when accesses fail. Whatever becomes of the strokes in
between, a helper that has read `PINCTRL` ends with writing that word back to it, and it tells of
the first access that failed, be it a stroke or the last write. -/

namespace PioBlock

open Control

theorem Transaction.run_read_bind {α : Type} (address : Word) (next : Word → Transaction α) :
    (Transaction.read address >>= next).run = .read address fun answer =>
      match answer with
      | .error e => .done (.error e)
      | .ok w => (next w).run := by
  change Procedure.read address _ = _
  congr 1
  funext answer
  cases answer <;> rfl

/-- Writes between reading a register and writing the word back: where the read fails there is
nothing else, and otherwise the last write is made however the writes before it ended. -/
theorem restoring_eq (address : Word) (writes : List (Word × Word)) :
    (restoring address writes).run = .read address fun answer =>
      match answer with
      | .error e => .done (.error e)
      | .ok saved => (Transaction.writeAll writes).run >>= fun outcome =>
          .write address (.ofAddress address saved) fun back =>
            .done (outcome.bind fun _ => back) := by
  rw [restoring, Transaction.run_read_bind]
  congr 1
  funext answer
  cases answer with
  | error e => rfl
  | ok saved =>
    dsimp only
    rw [ExceptT.run_bind_lift]
    congr 1
    funext outcome
    rw [ExceptT.run_bind_lift]
    change Procedure.write address _ _ = _
    congr 1
    funext back
    cases outcome <;> rfl

section AnySpace

variable {σ : Type} [RegisterSpace σ]

theorem run_restoring_eq (address : Word) (writes : List (Word × Word)) (s : σ) :
    (restoring address writes).run.run s =
      match RegisterSpace.read address s with
      | (.error e, s₁) => ⟨.error e, s₁, [.read address (.error e)]⟩
      | (.ok saved, s₁) =>
        let middle := (Transaction.writeAll writes).run.run s₁
        let back := RegisterSpace.write address (.ofAddress address saved) middle.space
        ⟨middle.value.bind fun _ => back.1, back.2,
          .read address (.ok saved) ::
            (middle.trace ++ [.write address (.ofAddress address saved) back.1])⟩ := by
  rw [restoring_eq, Procedure.run]
  obtain ⟨e | saved, s₁⟩ := RegisterSpace.read address s
  · rfl
  · simp only [Procedure.run_bind, Procedure.run]

theorem restoring_ends (address : Word) (writes : List (Word × Word)) (s : σ) :
    ((restoring address writes).run.run s).value =
      Access.ended ((restoring address writes).run.run s).trace := by
  rw [run_restoring_eq]
  obtain ⟨e | saved, s₁⟩ := RegisterSpace.read address s
  · rfl
  · have written := (Transaction.attempts_writeAll writes s₁).2
    dsimp only
    rw [Access.ended_read_cons, Access.ended_append, ← written]
    cases (RegisterSpace.write address (.ofAddress address saved)
      ((Transaction.writeAll writes).run.run s₁).space).1 <;> rfl

end AnySpace

/-- What a pin helper with these strokes does on a bus where any access may fail. It tells of the
first access that failed. When it cannot read `PINCTRL` it makes no other access; otherwise it makes
the writes of the strokes up to the first that fails, and last writes the word read back to
`PINCTRL`, which then holds it unless this write fails, too. -/
structure Restores {β : Type} [RegisterBlock β] (d : Dispatch β) (position : Nat) (h : Handle)
    (sm : StateMachine) (polls : Nat) (op : Operation) (strokes : List Stroke) : Prop where
  outcome : (((op.perform polls).start h).run d).value =
    (Access.verdict (((op.perform polls).start h).run d).trace, h)
  accesses :
    (∃ e, (((op.perform polls).start h).run d).trace =
      [.read (h.address (.machine sm .pinctrl)) (.error e)]) ∨
    ∃ saved body answer, (((op.perform polls).start h).run d).trace =
        .read (h.address (.machine sm .pinctrl)) (.ok saved) ::
          (body ++ [.write (h.address (.machine sm .pinctrl))
            (.ofAddress (h.address (.machine sm .pinctrl)) saved) answer]) ∧
      Access.Attempts (strokeWrites h sm strokes) body ∧
      (answer = .ok () →
        (((op.perform polls).start h).run d).space.wordAt position (.machine sm .pinctrl) =
          some saved)

section Hosted

variable {β : Type} [RegisterBlock β] [LawfulBlock β] {d : Dispatch β} {position pio : Nat}
  {h : Handle} {sm : StateMachine}

theorem start_draw (sm : StateMachine) (strokes : List Stroke) (h : Handle) :
    (draw sm strokes).start h =
      (transact (restoring (h.address (.machine sm .pinctrl)) (strokeWrites h sm strokes))).start
        h := by
  rw [draw, start_bind, start_get]
  rfl

theorem restores_of_draw {words : PioRegister → Word}
    (holds : d.Holds position pio h.base words) (window : Layout.IsWindow h.base) {polls : Nat}
    {op : Operation} {strokes : List Stroke}
    (draws : op.perform polls = Operation.acting (draw sm strokes)) :
    Restores d position h sm polls op strokes := by
  have ran := run_acting (start_draw sm strokes h) d
  constructor
  · rw [draws, ran, Access.verdict_eq]
    dsimp only
    rw [restoring_ends]
  · obtain ⟨words₁, holds₁, -⟩ := holds.read window (.machine sm .pinctrl)
    rw [draws, ran, run_restoring_eq, Handle.address]
    generalize RegisterSpace.read _ d = answered at holds₁ ⊢
    obtain ⟨e | saved, d₁⟩ := answered
    · exact .inl ⟨e, rfl⟩
    · obtain ⟨words₂, holds₂, -⟩ := holds₁.writeAll window (strokeItems sm strokes)
      obtain ⟨words₃, holds₃, -, stored⟩ :=
        holds₂.writeWord window (.machine sm .pinctrl) saved rfl
      have written := (Transaction.attempts_writeAll (strokeWrites h sm strokes) d₁).1
      rw [strokeWrites_eq] at written ⊢
      refine .inr ⟨saved, _, _, rfl, written, fun restored => ?_⟩
      exact (holds₃.wordAt_eq _).trans
        (congrArg some ((stored restored).trans (Alias.apply_write_plain saved _)))

/-- However accesses fail, the pin helpers restore `PINCTRL` as far as the bus lets them, and the
first error is the one they tell. -/
theorem helpers_restore {block : β} (hosts : d.Hosts position pio h.base block)
    (window : Layout.IsWindow h.base) (sm : StateMachine) (polls : Nat) :
    (∀ values, Restores d position h sm polls (.setPins sm.val values) (Stroke.allPins values)) ∧
    (∀ values mask, Restores d position h sm polls (.setPinsMasked sm.val values mask)
      (Stroke.masked .pins values mask)) ∧
    (∀ directions mask, Restores d position h sm polls (.setPindirsMasked sm.val directions mask)
      (Stroke.masked .pindirs directions mask)) ∧
    ∀ base ≤ 31, ∀ count ≤ 32, ∀ isOut,
      Restores d position h sm polls (.setConsecutivePindirs sm.val base count isOut)
        (Stroke.consecutive base count isOut) := by
  obtain ⟨words, holds⟩ := hosts.holds
  refine ⟨fun values => ?_, fun values mask => ?_, fun directions mask => ?_,
    fun base in_pins count small isOut => ?_⟩
  all_goals refine restores_of_draw holds window ?_
  · rw [Operation.perform, Operation.machine_val, pure_bind]
  · rw [Operation.perform, Operation.machine_val, pure_bind]
  · rw [Operation.perform, Operation.machine_val, pure_bind]
  · rw [Operation.perform, Operation.machine_val, pure_bind, Operation.below32,
      dif_pos (Nat.lt_succ_of_le in_pins), pure_bind, if_neg (Nat.not_lt.mpr small)]

end Hosted

def sampleJam : BenchBlock :=
  ((BenchBlock.plain (RegisterFile.pioAt 0 0x50200000)).plan ⟨54, .write, 1, 1, "jammed"⟩).plan
    ⟨55, .write, 2, 1, "stuck"⟩

theorem helpers_restore_sampleJam :
    (⟨[sampleJam]⟩ : Dispatch BenchBlock).Hosts 0 0 0x50200000 sampleJam ∧
    Restores ⟨[sampleJam]⟩ 0 (Handle.at_ 0 0x50200000) 0 1 (.setConsecutivePindirs 0 30 7 true)
      (Stroke.consecutive 30 7 true) := by
  have hosts : (⟨[sampleJam]⟩ : Dispatch BenchBlock).Hosts 0 0 0x50200000 sampleJam :=
    Dispatch.hosts_alone rfl rfl
  exact ⟨hosts, (helpers_restore (h := Handle.at_ 0 0x50200000) hosts (by decide) 0 1).2.2.2 30
    (by decide) 7 (by decide) true⟩

end PioBlock
