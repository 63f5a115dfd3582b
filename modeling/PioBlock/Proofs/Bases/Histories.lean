import PioBlock.Proofs.Bases.Operations
import PioBlock.Proofs.Residents

/-! A handle at another base. Where the alias bits of the driven registers are zero, any calls
through a handle at that base end as they do at the hardware address and leave the same registers.
Elsewhere some write is misread: either the last register driven is not written plainly, or
enabling a state machine is taken for disabling it. -/

namespace PioBlock

open Control

/-- What can be seen of a call: how it ended, what the registers hold afterwards, and the two sets
that the handle keeps. -/
structure Sight where
  outcome : Except Failure Answer
  registers : List (List Register)
  occupancy : Word
  claimed : MachineSet
deriving DecidableEq

def Sight.wordsAt (s : Sight) (index : Nat) : List (Option Word) :=
  s.registers.map fun registers => registers[index]?.map (·.value)

def Event.sight (e : Event (Dispatch RegisterFile)) : Sight :=
  ⟨e.outcome, e.after.space.blocks.map (·.registers), e.after.handle.occupancy,
    e.after.handle.claimed⟩

namespace Session

variable {m : Bases} {s s' : Session (Dispatch RegisterFile)}

def alone (index pio : Nat) (base : Word) : Session (Dispatch RegisterFile) :=
  fresh (Handle.at_ index base) ⟨[RegisterFile.pioAt pio base]⟩

/-- Handles that differ in the base only, on blocks with the same registers. -/
structure Paired (m : Bases) (s s' : Session (Dispatch RegisterFile)) : Prop where
  base : s.handle.base = m.left
  handle : s'.handle = s.handle.rebase m.right
  spaces : ∃ registers : List Register, registers.length = PioRegister.count ∧
    s.space = Dispatch.lone m.left registers ∧ s'.space = Dispatch.lone m.right registers

theorem paired_alone (m : Bases) (index pio : Nat) :
    Paired m (alone index pio m.left) (alone index pio m.right) :=
  ⟨rfl, rfl, _, RegisterFile.size_pioAt pio m.left, rfl, rfl⟩

theorem Paired.perform (paired : Paired m s s') (polls : Nat) {call : Operation}
    (own : call.namesBase = false) :
    Paired m (s.perform polls call).after (s'.perform polls call).after ∧
      (s'.perform polls call).sight = (s.perform polls call).sight ∧
      ∀ f, (s.perform polls call).outcome ≠ .error (.error (.register f)) := by
  obtain ⟨base, handle, registers, size, left, right⟩ := paired
  have same := call.uniform_perform polls own s.handle base
  rw [← handle] at same
  obtain ⟨after, size', left', right', alike⟩ := same.run size
  rw [← left] at left' alike
  rw [← right] at right' alike
  obtain ⟨ended, base', served⟩ := alike
  refine ⟨⟨base', congrArg Prod.snd ended, after, size', left', right'⟩, ?_, served⟩
  simp only [Event.sight, Session.perform, left', right', ended]
  rfl

theorem Paired.history (paired : Paired m s s') (polls : Nat) {calls : List Operation}
    (own : ∀ call ∈ calls, call.namesBase = false) :
    (s'.history polls calls).map Event.sight = (s.history polls calls).map Event.sight ∧
      ∀ e ∈ s.history polls calls, ∀ f, e.outcome ≠ .error (.error (.register f)) := by
  induction calls generalizing s s' with
  | nil => exact ⟨rfl, fun e he => nomatch he⟩
  | cons call rest ih =>
    obtain ⟨first, own⟩ := List.forall_mem_cons.mp own
    obtain ⟨next, seen, served⟩ := paired.perform polls first
    obtain ⟨later, none⟩ := ih next own
    refine ⟨?_, List.forall_mem_cons.mpr ⟨served, none⟩⟩
    simp only [Session.history, List.map_cons, seen, later]

end Session

namespace Transaction

theorem run_writeAll_lone {base : Word} (aligned : Layout.IsAligned base)
    (items : List (PioRegister × Word)) {registers : List Register}
    (size : registers.length = PioRegister.count) :
    ((writeAll (items.map fun item => (Layout.address base item.1.index, item.2))).run.run
        (Dispatch.lone base registers)).value = .ok () ∧
      ((writeAll (items.map fun item => (Layout.address base item.1.index, item.2))).run.run
        (Dispatch.lone base registers)).space =
      Dispatch.lone base (items.foldl (fun registers item => registers.modify item.1.index
        (·.write (.ofAddress (Layout.address base item.1.index) item.2))) registers) := by
  induction items generalizing registers with
  | nil => exact ⟨rfl, rfl⟩
  | cons item rest ih =>
    have written := Dispatch.write_lone aligned size item.1 .plain
      (.ofAddress (Layout.address base item.1.index) item.2)
    rw [Layout.or_bits_plain] at written
    rw [List.map_cons, run_writeAll_cons]
    simp only [Procedure.run, written]
    exact ih (by rwa [List.length_modify])

end Transaction

namespace Session

variable {base : Word}

def windowless : Config := { Config.reset with pinctrl := 0 }

theorem space_of_transact (h : Handle) (space : Dispatch RegisterFile) (polls : Nat)
    (call : Operation) (t : Transaction Unit)
    (started : (call.perform polls).start h = (Operation.acting (transact t)).start h) :
    ((fresh h space).perform polls call).after.space = (t.run.run space).space := by
  change (((call.perform polls).start h).run space).space = _
  rw [started, Operation.acting, start_bind, start_transact, Procedure.bind_assoc,
    Procedure.run_bind]
  generalize t.run.run space = ran
  obtain ⟨_ | _, left, trace⟩ := ran <;> rfl

theorem pinctrl_of_configure (index pio : Nat) (aligned : Layout.IsAligned base) (polls : Nat) :
    ((alone index pio base).perform polls (.configure 3 windowless)).sight.wordsAt 73 =
      [some (((Alias.ofAddress (Layout.address base 73)).write 0).apply Layout.pinctrlReset)] := by
  have ran := space_of_transact (Handle.at_ index base) ⟨[RegisterFile.pioAt pio base]⟩ polls
    (.configure 3 windowless) (.writeAll ((configWords 3 windowless).map fun item =>
      (Layout.address base item.1.index, item.2))) rfl
  have written := (Transaction.run_writeAll_lone aligned (configWords 3 windowless)
    (RegisterFile.size_pioAt pio base)).2
  rw [Sight.wordsAt, Event.sight, alone, ran.trans written]
  rfl

theorem ctrl_of_setEnabled (index pio : Nat) (aligned : Layout.IsAligned base) (polls : Nat) :
    ((alone index pio base).perform polls (.setEnabled 0 true)).sight.wordsAt 0 =
      [some (((Alias.ofAddress (Layout.address base 0 ||| Alias.set.bits)).write 1).apply 0)] := by
  have ran := space_of_transact (Handle.at_ index base) ⟨[RegisterFile.pioAt pio base]⟩ polls
    (.setEnabled 0 true) (.write (Layout.address base 0 ||| Alias.set.bits) 1) rfl
  have written := congrArg Prod.snd (Dispatch.write_lone aligned
    (RegisterFile.size_pioAt pio base) .ctrl .set
    (.ofAddress (Layout.address base 0 ||| Alias.set.bits) 1))
  rw [Sight.wordsAt, Event.sight, alone, ran.trans written]
  rfl

/-- A handle and its block work at an aligned base as they do at the hardware address, whatever is
called, just where no register driven has an alias bit in its address. Then no access fails. -/
theorem same_as_hardware_iff (index pio : Nat) (aligned : Layout.IsAligned base) :
    (∀ polls calls, (∀ call ∈ calls, call.namesBase = false) →
      ((alone index pio base).history polls calls).map Event.sight =
        ((alone index pio 0x50200000).history polls calls).map Event.sight ∧
      ∀ e ∈ (alone index pio base).history polls calls,
        ∀ f, e.outcome ≠ .error (.error (.register f))) ↔
    base.toNat % 0x4000 + 4 * 73 < 0x1000 := by
  have hardware : Layout.IsAliasFree 0x50200000 := by decide
  constructor
  · intro same
    by_contra taken
    obtain plain | clear := Layout.misread_of_not_isAliasFree taken
    · have seen := (same 0 [.configure 3 windowless] (by decide)).1
      have words := congrArg (·.wordsAt 73) (List.cons.inj seen).1
      rw [pinctrl_of_configure index pio aligned,
        pinctrl_of_configure index pio (by decide)] at words
      revert plain words
      cases Alias.ofAddress (Layout.address base 73) <;> decide
    · have seen := (same 0 [.setEnabled 0 true] (by decide)).1
      have words := congrArg (·.wordsAt 0) (List.cons.inj seen).1
      rw [ctrl_of_setEnabled index pio aligned, ctrl_of_setEnabled index pio (by decide),
        clear] at words
      revert words
      decide
  · intro free polls calls own
    let m : Bases := ⟨base, 0x50200000, aligned, by decide, free, hardware⟩
    obtain ⟨seen, served⟩ := (paired_alone m index pio).history polls own
    exact ⟨seen.symm, served⟩

theorem same_as_hardware_iff_last :
    ((alone 0 0 0x40000ed8).history 1 sampleCalls).map Event.sight =
      ((alone 0 0 0x50200000).history 1 sampleCalls).map Event.sight ∧
    ¬ ∀ polls calls, (∀ call ∈ calls, call.namesBase = false) →
      ((alone 0 0 0x40000edc).history polls calls).map Event.sight =
        ((alone 0 0 0x50200000).history polls calls).map Event.sight ∧
      ∀ e ∈ (alone 0 0 0x40000edc).history polls calls,
        ∀ f, e.outcome ≠ .error (.error (.register f)) := by
  have aligned : Layout.IsAligned 0x40000ed8 ∧ Layout.IsAligned 0x40000edc := by decide
  have works := (same_as_hardware_iff 0 0 aligned.1).mpr (by decide)
  have fails := (same_as_hardware_iff 0 0 aligned.2).not.mpr (by decide)
  exact ⟨(works 1 sampleCalls (by decide)).1, fails⟩

/-- One page further on a plain write is taken for a toggling one. -/
theorem not_same_as_hardware :
    ¬ ∀ base : Word, Layout.IsAligned base → base.toNat + 4 * 81 < 2 ^ 32 → ∀ polls calls,
      (∀ call ∈ calls, call.namesBase = false) →
        ((alone 0 0 base).history polls calls).map Event.sight =
          ((alone 0 0 0x50200000).history polls calls).map Event.sight := by
  intro same
  have seen := same 0x50201000 (by decide) (by decide) 0 [.configure 3 windowless] (by decide)
  have words := congrArg (·.wordsAt 73) (List.cons.inj seen).1
  rw [pinctrl_of_configure 0 0 (by decide), pinctrl_of_configure 0 0 (by decide)] at words
  revert words
  decide

end Session

end PioBlock
