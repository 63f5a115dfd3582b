import PioBlock.Proofs.Faults
import PioBlock.Proofs.Fields
import PioBlock.Bench
import Mathlib.Data.List.Range

/-! What the blocking operations do to the bus. Each of them reads a status again and again until it
meets a condition, and the loop is followed through the spaces that these reads find, whatever the
space makes of them. The accesses of an operation are then a list that the number of unmet reads
determines, with its one effect after the last of them. -/

namespace PioBlock

section AnySpace

variable {σ : Type} [RegisterSpace σ]

/-- A read of a status, and what is done after it while the condition is not met. -/
def pollRound (address : Word) (between : σ → Except RegisterError Unit × σ) (s : σ) : σ :=
  (between (RegisterSpace.read address s).2).2

def nothing (s : σ) : Except RegisterError Unit × σ := (.ok (), s)

/-- Read again and again, the register at the address gives these words, and the word at `k` is the
first that meets the condition; what is done between the reads until then does not fail. -/
structure FirstMet (address : Word) (between : σ → Except RegisterError Unit × σ) (s : σ)
    (condition : Word → Bool) (status : Nat → Word) (k : Nat) : Prop where
  reads : ∀ i ≤ k,
    (RegisterSpace.read address ((pollRound address between)^[i] s)).1 = .ok (status i)
  passes : ∀ i < k,
    (between (RegisterSpace.read address ((pollRound address between)^[i] s)).2).1 = .ok ()
  unmet : ∀ i < k, condition (status i) = false
  met : condition (status k) = true

def Handle.readsOf (h : Handle) (r : PioRegister) (status : Nat → Word) (n : Nat) : List Access :=
  (List.range n).map fun i => .read (h.address r) (.ok (status i))

def Handle.execute (h : Handle) (sm : StateMachine) (word : Word) (s : σ) :
    Except RegisterError Unit × σ :=
  RegisterSpace.write (h.address (.machine sm .instr))
    (.ofAddress (h.address (.machine sm .instr)) word) s

def Handle.execution (h : Handle) (sm : StateMachine) (word : Word) : Access :=
  .write (h.address (.machine sm .instr)) (.ofAddress (h.address (.machine sm .instr)) word)
    (.ok ())

namespace Control

variable {α β : Type} {h : Handle} {s s' : σ} {trace : List Access}

theorem run_bind_of_ok {c : Control α} {next : α → Control β} {a : α}
    (first : (c.start h).run s = ⟨(.ok a, h), s', trace⟩) :
    ((c >>= next).start h).run s =
      ⟨(((next a).start h).run s').value, (((next a).start h).run s').space,
        trace ++ (((next a).start h).run s').trace⟩ := by
  rw [start_bind, Procedure.run_bind, first]

theorem run_returning (f : α → β) (c : Control α) (h : Handle) (s : σ) :
    ((do return f (← c) : Control β).start h).run s =
      ⟨(((c.start h).run s).value.1.map f, ((c.start h).run s).value.2),
        ((c.start h).run s).space, ((c.start h).run s).trace⟩ := by
  rw [start_returning, Procedure.run_bind]
  simp

theorem run_readRegister (r : PioRegister) (h : Handle) (s : σ) :
    ((readRegister r).start h).run s =
      ⟨((RegisterSpace.read (h.address r) s).1.mapError (.error ∘ .register), h),
        (RegisterSpace.read (h.address r) s).2,
        [.read (h.address r) (RegisterSpace.read (h.address r) s).1]⟩ := by
  rw [readRegister, start_access, start_transact]
  rfl

theorem run_writeRegister (r : PioRegister) (value : Word) (h : Handle) (s : σ) :
    ((writeRegister r value).start h).run s =
      ⟨((RegisterSpace.write (h.address r) (.ofAddress (h.address r) value) s).1.mapError
          (.error ∘ .register), h),
        (RegisterSpace.write (h.address r) (.ofAddress (h.address r) value) s).2,
        [.write (h.address r) (.ofAddress (h.address r) value)
          (RegisterSpace.write (h.address r) (.ofAddress (h.address r) value) s).1]⟩ := by
  rw [writeRegister, start_access, start_transact]
  rfl

theorem run_test {f : Word → α} {r : PioRegister} {w : Word}
    (read : (RegisterSpace.read (h.address r) s).1 = .ok w) :
    ((do return f (← readRegister r) : Control α).start h).run s =
      ⟨(.ok (f w), h), (RegisterSpace.read (h.address r) s).2,
        [.read (h.address r) (.ok w)]⟩ := by
  rw [run_returning, run_readRegister, read]
  rfl

/-- A loop whose condition fails for `k` rounds and then holds makes the accesses of them all. -/
theorem run_pollUntil {condition : Control Bool} {round : σ → σ} {accesses : Nat → List Access}
    {k polls : Nat} (within : k < polls)
    (unmet : ∀ i < k, (condition.start h).run (round^[i] s) =
      ⟨(.ok false, h), round (round^[i] s), accesses i⟩)
    (met : (condition.start h).run (round^[k] s) = ⟨(.ok true, h), s', trace⟩) :
    ((pollUntil condition polls).start h).run s =
      ⟨(.ok (), h), s', (List.range k).flatMap accesses ++ trace⟩ := by
  obtain ⟨rest, rfl⟩ : ∃ rest, polls = rest + 1 := Nat.exists_eq_succ_of_ne_zero (by omega)
  -- The loop that is left after one round is the same loop from where this round has led.
  induction k generalizing s accesses rest with
  | zero =>
    have last : (condition.start h).run s = ⟨(.ok true, h), s', trace⟩ := met
    rw [pollUntil_succ, run_bind_of_ok last]
    simp [start_pure]
  | succ k ih =>
    obtain ⟨rest, rfl⟩ : ∃ fewer, rest = fewer + 1 := Nat.exists_eq_succ_of_ne_zero (by omega)
    have later : ((pollUntil condition (rest + 1)).start h).run (round s) =
        ⟨(.ok (), h), s', (List.range k).flatMap (fun i => accesses (i + 1)) ++ trace⟩ :=
      ih (fun i lt => unmet (i + 1) (Nat.succ_lt_succ lt)) met rest
        (Nat.lt_of_succ_lt_succ within)
    have first : (condition.start h).run s = ⟨(.ok false, h), round s, accesses 0⟩ :=
      unmet 0 (Nat.succ_pos k)
    rw [pollUntil_succ, run_bind_of_ok first]
    simp only [Bool.false_eq_true, if_false]
    rw [later, List.range_succ_eq_map, List.flatMap_cons, List.flatMap_map, List.append_assoc]

theorem run_pollUntil_readRegister {condition : Word → Bool} {r : PioRegister}
    {status : Nat → Word} {k polls : Nat} (within : k < polls)
    (first : FirstMet (h.address r) nothing s condition status k) :
    ((pollUntil (do return condition (← readRegister r)) polls).start h).run s =
      ⟨(.ok (), h), (pollRound (h.address r) nothing)^[k + 1] s, h.readsOf r status (k + 1)⟩ := by
  have poll : ∀ i ≤ k, ((do return condition (← readRegister r) : Control Bool).start h).run
      ((pollRound (h.address r) nothing)^[i] s) =
        ⟨(.ok (condition (status i)), h),
          pollRound (h.address r) nothing ((pollRound (h.address r) nothing)^[i] s),
          [.read (h.address r) (.ok (status i))]⟩ :=
    fun i le => run_test (f := condition) (first.reads i le)
  have polled := run_pollUntil within
    (fun i lt => (poll i (Nat.le_of_lt lt)).trans (by rw [first.unmet i lt]))
    ((poll k (Nat.le_refl k)).trans (by rw [first.met]))
  rw [polled, Handle.readsOf, List.range_succ, List.map_append, List.map_eq_flatMap,
    Function.iterate_succ_apply']
  rfl

theorem status_eq (flags : Field) (sm : StateMachine) (change : Bool → Bool) :
    (do return change (← status flags sm) : Control Bool) =
      do return change ((← readRegister .fstat).getLsbD (flags.lsb + sm.val)) := by
  simp only [status, bind_assoc, pure_bind]

theorem run_putBlocking {sm : StateMachine} {status : Nat → Word} {k polls : Nat}
    (within : k < polls) (data : Word)
    (room : FirstMet (h.address .fstat) nothing s (fun w => !w.getLsbD (16 + sm.val)) status k) :
    ∃ written : Except RegisterError Unit × σ, ((putBlocking polls sm data).start h).run s =
      ⟨(written.1.mapError (.error ∘ .register), h), written.2, h.readsOf .fstat status (k + 1) ++
        [.write (h.address (.txf sm)) (.ofAddress (h.address (.txf sm)) data) written.1]⟩ := by
  have waited := run_pollUntil_readRegister within room
  have condition : (do return !(← Control.status Layout.txFull sm) : Control Bool) =
      do return !((← readRegister .fstat).getLsbD (16 + sm.val)) := status_eq _ sm (!·)
  rw [putBlocking, isTxFull, condition, run_bind_of_ok waited, put, run_writeRegister]
  exact ⟨_, rfl⟩

theorem run_takeBlocking {sm : StateMachine} {status : Nat → Word} {k polls : Nat}
    (within : k < polls)
    (data : FirstMet (h.address .fstat) nothing s (fun w => !w.getLsbD (8 + sm.val)) status k) :
    ∃ found : Except RegisterError Word × σ, ((takeBlocking polls sm).start h).run s =
      ⟨(found.1.mapError (.error ∘ .register), h), found.2, h.readsOf .fstat status (k + 1) ++
        [.read (h.address (.rxf sm)) found.1]⟩ := by
  have waited := run_pollUntil_readRegister within data
  have condition : (do return !(← Control.status Layout.rxEmpty sm) : Control Bool) =
      do return !((← readRegister .fstat).getLsbD (8 + sm.val)) := status_eq _ sm (!·)
  rw [takeBlocking, isRxEmpty, condition, run_bind_of_ok waited, take, run_readRegister]
  exact ⟨_, rfl⟩

theorem run_execute {sm : StateMachine} {i : Instruction}
    (done : (h.execute sm (i.setWidth 32) s).1 = .ok ()) :
    ((execute sm i).start h).run s =
      ⟨(.ok (), h), (h.execute sm (i.setWidth 32) s).2, [h.execution sm (i.setWidth 32)]⟩ := by
  rw [Handle.execute] at done ⊢
  rw [execute, run_writeRegister, done]
  rfl

theorem run_executeBlocking {sm : StateMachine} {i : Instruction} {status : Nat → Word}
    {k polls : Nat} (within : k < polls)
    (done : (h.execute sm (i.setWidth 32) s).1 = .ok ())
    (through : FirstMet (h.address (.machine sm .execctrl)) nothing
      (h.execute sm (i.setWidth 32) s).2 (fun w => !w.getLsbD 31) status k) :
    ∃ space, ((executeBlocking polls sm i).start h).run s = ⟨(.ok (), h), space,
      h.execution sm (i.setWidth 32) :: h.readsOf (.machine sm .execctrl) status (k + 1)⟩ := by
  have waited := run_pollUntil_readRegister within through
  have condition : (do return !(← isStalled sm) : Control Bool) =
      do return !((← readRegister (.machine sm .execctrl)).getLsbD 31) := by
    have bit := Field.isSet_eq_getLsbD (f := Layout.execStalled) rfl
    simp only [isStalled, bind_assoc, pure_bind, bit]
    rfl
  rw [executeBlocking, condition, run_bind_of_ok (run_execute done), waited]
  exact ⟨_, rfl⟩

def drainWord (shiftctrl : Word) : Word := if shiftctrl.getLsbD 17 then 0x6060 else 0x8080

theorem setWidth_drainInstruction (shiftctrl : Word) :
    (drainInstruction shiftctrl).setWidth 32 = drainWord shiftctrl := by
  have bit : Layout.autopull.isSet shiftctrl = shiftctrl.getLsbD 17 := Field.isSet_eq_getLsbD rfl _
  rw [drainInstruction, drainWord, bit]
  cases shiftctrl.getLsbD 17 <;> decide

def drainPoll (sm : StateMachine) (i : Instruction) : Control Bool := do
  if ← isTxEmpty sm then return true
  execute sm i
  return false

theorem drain_eq (polls : Nat) (sm : StateMachine) :
    drain polls sm = readRegister (.machine sm .shiftctrl) >>= fun shiftctrl =>
      pollUntil (drainPoll sm (drainInstruction shiftctrl)) polls :=
  rfl

section DrainPoll

variable {sm : StateMachine} {i : Instruction} {w : Word}
  (look : (RegisterSpace.read (h.address .fstat) s).1 = .ok w)
include look

theorem run_drainPoll_empty (empty : w.getLsbD (24 + sm.val) = true) :
    ((drainPoll sm i).start h).run s =
      ⟨(.ok true, h), (RegisterSpace.read (h.address .fstat) s).2,
        [.read (h.address .fstat) (.ok w)]⟩ := by
  have seen : ((isTxEmpty sm).start h).run s = _ :=
    run_test (f := (·.getLsbD (24 + sm.val))) look
  rw [drainPoll, run_bind_of_ok seen, empty]
  rfl

theorem run_drainPoll_more (more : w.getLsbD (24 + sm.val) = false)
    (done : (h.execute sm (i.setWidth 32) (RegisterSpace.read (h.address .fstat) s).2).1 =
      .ok ()) :
    ((drainPoll sm i).start h).run s =
      ⟨(.ok false, h), pollRound (h.address .fstat) (h.execute sm (i.setWidth 32)) s,
        [.read (h.address .fstat) (.ok w), h.execution sm (i.setWidth 32)]⟩ := by
  have seen : ((isTxEmpty sm).start h).run s = _ :=
    run_test (f := (·.getLsbD (24 + sm.val))) look
  rw [drainPoll, run_bind_of_ok seen, more]
  simp only [Bool.false_eq_true, if_false]
  rw [run_bind_of_ok (run_execute done)]
  rfl

end DrainPoll

theorem run_drain {sm : StateMachine} {shiftctrl : Word} {status : Nat → Word} {k polls : Nat}
    (within : k < polls)
    (read : RegisterSpace.read (h.address (.machine sm .shiftctrl)) s = (.ok shiftctrl, s'))
    (empty : FirstMet (h.address .fstat) (h.execute sm (drainWord shiftctrl)) s'
      (·.getLsbD (24 + sm.val)) status k) :
    ∃ space, ((drain polls sm).start h).run s = ⟨(.ok (), h), space,
      .read (h.address (.machine sm .shiftctrl)) (.ok shiftctrl) ::
        ((List.range k).flatMap (fun i => [.read (h.address .fstat) (.ok (status i)),
            h.execution sm (drainWord shiftctrl)]) ++
          [.read (h.address .fstat) (.ok (status k))])⟩ := by
  have first := run_readRegister (.machine sm .shiftctrl) h s
  rw [read] at first
  rw [← setWidth_drainInstruction] at empty ⊢
  have drained := run_pollUntil within
    (fun i lt => run_drainPoll_more (empty.reads i (Nat.le_of_lt lt)) (empty.unmet i lt)
      (empty.passes i lt))
    (run_drainPoll_empty (empty.reads k (Nat.le_refl k)) empty.met)
  rw [drain_eq, run_bind_of_ok first, drained]
  exact ⟨_, rfl⟩

end Control

/-- The operation blocks until a status of the state machine allows it to go on. -/
def Operation.Blocks (sm : StateMachine) : Operation → Prop
  | .putBlocking n _ | .takeBlocking n | .executeBlocking n _ | .drain n => n = sm.val
  | _ => False

theorem Operation.Blocks.givesUp {sm : StateMachine} {op : Operation} (blocks : op.Blocks sm)
    (polls : Nat) : Control.GivesUp (op.perform polls) := by
  have rules := Control.GivesUp.rules
  cases op with
  | putBlocking n data =>
    cases blocks
    rw [perform, machine_val, pure_bind]
    exact rules.returning _ (rules.putBlocking polls sm data trivial trivial)
  | takeBlocking n =>
    cases blocks
    rw [perform, machine_val, pure_bind]
    exact rules.returning _ (rules.takeBlocking polls sm trivial trivial)
  | executeBlocking n i =>
    cases blocks
    rw [perform, machine_val, pure_bind]
    exact rules.returning _ (rules.executeBlocking polls sm i trivial trivial)
  | drain n =>
    cases blocks
    rw [perform, machine_val, pure_bind]
    exact rules.returning _ (rules.drain polls sm trivial trivial fun _ => trivial)
  | _ => cases blocks

open Control

/-- The blocking operations act once, and only when the status allows it. Where the status meets the
condition first in the read with number `k`, it is read that often, from 0 on: then the word is put
or taken, while executing comes before the reads and draining goes between them. An access that
fails is the last one, and its error is the outcome. -/
theorem blocking_operations_act_once (h : Handle) (sm : StateMachine) (polls : Nat) (s : σ) :
    let ran := fun op : Operation => ((op.perform polls).start h).run s
    (∀ (data : Word) (status : Nat → Word), ∀ k < polls,
      FirstMet (h.address .fstat) nothing s (fun w => !w.getLsbD (16 + sm.val)) status k →
        ∃ answer, (ran (.putBlocking sm.val data)).trace = h.readsOf .fstat status (k + 1) ++
            [.write (h.address (.txf sm)) (.ofAddress (h.address (.txf sm)) data) answer] ∧
          (ran (.putBlocking sm.val data)).value =
            ((answer.mapError (.error ∘ .register)).map fun _ => .done, h)) ∧
    (∀ status : Nat → Word, ∀ k < polls,
      FirstMet (h.address .fstat) nothing s (fun w => !w.getLsbD (8 + sm.val)) status k →
        ∃ answer, (ran (.takeBlocking sm.val)).trace = h.readsOf .fstat status (k + 1) ++
            [.read (h.address (.rxf sm)) answer] ∧
          (ran (.takeBlocking sm.val)).value =
            ((answer.mapError (.error ∘ .register)).map .word, h)) ∧
    (∀ (i : Instruction) (status : Nat → Word), ∀ k < polls,
      (h.execute sm (i.setWidth 32) s).1 = .ok () →
      FirstMet (h.address (.machine sm .execctrl)) nothing (h.execute sm (i.setWidth 32) s).2
        (fun w => !w.getLsbD 31) status k →
        (ran (.executeBlocking sm.val i)).trace =
            h.execution sm (i.setWidth 32) :: h.readsOf (.machine sm .execctrl) status (k + 1) ∧
          (ran (.executeBlocking sm.val i)).value = (.ok .done, h)) ∧
    (∀ (shiftctrl : Word) (s' : σ) (status : Nat → Word), ∀ k < polls,
      RegisterSpace.read (h.address (.machine sm .shiftctrl)) s = (.ok shiftctrl, s') →
      FirstMet (h.address .fstat) (h.execute sm (drainWord shiftctrl)) s'
        (·.getLsbD (24 + sm.val)) status k →
        (ran (.drain sm.val)).trace =
            .read (h.address (.machine sm .shiftctrl)) (.ok shiftctrl) ::
              ((List.range k).flatMap (fun i => [.read (h.address .fstat) (.ok (status i)),
                h.execution sm (drainWord shiftctrl)]) ++
              [.read (h.address .fstat) (.ok (status k))]) ∧
          (ran (.drain sm.val)).value = (.ok .done, h)) ∧
    ∀ op, Operation.Blocks sm op → ∀ earlier access later e,
      (ran op).trace = earlier ++ access :: later → access.error? = some e →
        later = [] ∧ (ran op).value.1 = .error (.error (.register e)) := by
  intro ran
  refine ⟨fun data status k within room => ?put, fun status k within data => ?take,
    fun i status k within done through => ?execute,
    fun shiftctrl s' status k within read empty => ?drain,
    fun op blocks earlier access later e split failed => (blocks.givesUp polls h).run split failed⟩
  case put =>
    have acted := run_returning (fun _ => Answer.done) (putBlocking polls sm data) h s
    obtain ⟨written, run⟩ := run_putBlocking within data room
    simp only [ran, Operation.perform, Operation.machine_val, pure_bind, Operation.acting]
    rw [acted, run]
    exact ⟨_, rfl, rfl⟩
  case take =>
    have acted := run_returning Answer.word (takeBlocking polls sm) h s
    obtain ⟨found, run⟩ := run_takeBlocking within data
    simp only [ran, Operation.perform, Operation.machine_val, pure_bind]
    rw [acted, run]
    exact ⟨_, rfl, rfl⟩
  case execute =>
    have acted := run_returning (fun _ => Answer.done) (executeBlocking polls sm i) h s
    obtain ⟨space, run⟩ := run_executeBlocking within done through
    simp only [ran, Operation.perform, Operation.machine_val, pure_bind, Operation.acting]
    rw [acted, run]
    exact ⟨rfl, rfl⟩
  case drain =>
    have acted := run_returning (fun _ => Answer.done) (drain polls sm) h s
    obtain ⟨space, run⟩ := run_drain within read empty
    simp only [ran, Operation.perform, Operation.machine_val, pure_bind, Operation.acting]
    rw [acted, run]
    exact ⟨rfl, rfl⟩

end AnySpace

/-! On this bench the second look at `FSTAT` and at `EXECCTRL` of state machine 2 finds what all
four operations wait for. -/

def sampleStatus (i : Nat) : Word := if i = 0 then 0x80040400 else 0x04000000

def samplePolled : Dispatch BenchBlock :=
  let looks := [sampleStatus 0, sampleStatus 1]
  ⟨[((BenchBlock.plain (RegisterFile.pioAt 0 0x50200000)).script 1 looks).script 63 looks]⟩

theorem blocking_operations_act_once_samplePolled :
    let h := Handle.at_ 0 0x50200000
    let ran := fun op : Operation => ((op.perform 2).start h).run samplePolled
    (∃ answer, (ran (.putBlocking 2 7)).trace = h.readsOf .fstat sampleStatus 2 ++
      [.write (h.address (.txf 2)) (.ofAddress (h.address (.txf 2)) 7) answer]) ∧
    (∃ answer, (ran (.takeBlocking 2)).trace = h.readsOf .fstat sampleStatus 2 ++
      [.read (h.address (.rxf 2)) answer]) ∧
    (ran (.executeBlocking 2 0xa042)).trace =
      h.execution 2 0xa042 :: h.readsOf (.machine 2 .execctrl) sampleStatus 2 ∧
    (ran (.drain 2)).trace =
      [.read (h.address (.machine 2 .shiftctrl)) (.ok 0x000c0000),
        .read (h.address .fstat) (.ok (sampleStatus 0)), h.execution 2 0x8080,
        .read (h.address .fstat) (.ok (sampleStatus 1))] := by
  intro h ran
  obtain ⟨put, take, execute, drain, -⟩ := blocking_operations_act_once h 2 2 samplePolled
  have room : FirstMet (h.address .fstat) nothing samplePolled (fun w => !w.getLsbD 18)
      sampleStatus 1 :=
    ⟨by decide +kernel, by decide +kernel, by decide +kernel, by decide +kernel⟩
  have data : FirstMet (h.address .fstat) nothing samplePolled (fun w => !w.getLsbD 10)
      sampleStatus 1 :=
    ⟨by decide +kernel, by decide +kernel, by decide +kernel, by decide +kernel⟩
  have through : FirstMet (h.address (.machine 2 .execctrl)) nothing
      (h.execute 2 0xa042 samplePolled).2 (fun w => !w.getLsbD 31) sampleStatus 1 :=
    ⟨by decide +kernel, by decide +kernel, by decide +kernel, by decide +kernel⟩
  have looked : RegisterSpace.read (h.address (.machine 2 .shiftctrl)) samplePolled =
      (.ok 0x000c0000, samplePolled) := by decide +kernel
  have empty : FirstMet (h.address .fstat) (h.execute 2 (Control.drainWord 0x000c0000)) samplePolled
      (·.getLsbD 26) sampleStatus 1 :=
    ⟨by decide +kernel, by decide +kernel, by decide +kernel, by decide +kernel⟩
  obtain ⟨written, put, -⟩ := put 7 sampleStatus 1 (by decide) room
  obtain ⟨found, take, -⟩ := take sampleStatus 1 (by decide) data
  exact ⟨⟨written, put⟩, ⟨found, take⟩,
    (execute 0xa042 sampleStatus 1 (by decide) (by decide +kernel) through).1,
    (drain 0x000c0000 samplePolled sampleStatus 1 (by decide) looked empty).1⟩

end PioBlock
