import PioBlock.Proofs.CodeMemory
import PioBlock.Proofs.Residents

/-! The instruction words of the residents of a session. A load writes to the slots of its own
program only, and every other operation on the block writes to no slot at all, so the words of a
resident stay what they were loaded as, also when later loads fail after some of their writes.
Only clearing may harm them, and where it succeeds no resident is left. -/

namespace PioBlock

def Resident.StandsIn (r : Resident) (code : Slot → Word) : Prop :=
  ∀ n i, r.program.instructions[n]? = some i →
    code (slotAt r.offset n) = r.program.wordFor r.offset i

theorem Resident.StandsIn.congr {r : Resident} {code code' : Slot → Word} (stands : r.StandsIn code)
    (kept : ∀ slot ∈ r.slots, code' slot = code slot) : r.StandsIn code' := by
  intro n i h
  rw [kept _ (Program.mem_slotSet_of_getElem? r.offset h), stands n i h]

namespace Session

open Control

variable {β : Type} [RegisterBlock β] {s : Session (Dispatch β)} {position pio : Nat} {base : Word}

/-- The block of the session is hosted, and all residents stand in its slots. -/
structure Intact (position pio : Nat) (base : Word) (s : Session (Dispatch β)) : Prop where
  base_eq : s.handle.base = base
  stands : ∃ code, s.space.HoldsCode position pio base code ∧ ∀ r ∈ s.residents, r.StandsIn code

theorem Intact.wordAt_eq (intact : s.Intact position pio base) {r : Resident}
    (h : r ∈ s.residents) {n : Nat} {i : Instruction} (at_n : r.program.instructions[n]? = some i) :
    s.space.wordAt position (.instrMem (slotAt r.offset n)) =
      some (r.program.wordFor r.offset i) := by
  obtain ⟨code, holds, stands⟩ := intact.stands
  rw [holds.wordAt_eq, stands r h n i at_n]

theorem intact_fresh {d : Dispatch β} {block : β} (index : Nat)
    (hosts : d.Hosts position pio base block) :
    (fresh (Handle.at_ index base) d).Intact position pio base where
  base_eq := rfl
  stands := by
    obtain ⟨words, holds⟩ := hosts.holds
    exact ⟨fun slot => words (.instrMem slot), ⟨words, holds, fun _ => rfl⟩, fun r h => nomatch h⟩

variable [LawfulBlock β]

namespace Intact

/-- What stands in the slots of the residents, every permitted call keeps, but for a clearing that
fails on the way. -/
theorem perform (intact : s.Intact position pio base) (c : s.Consistent)
    (window : Layout.IsWindow base) (polls : Nat) {call : Operation} (permitted : s.Permits call)
    (cleared : call = .clear → (s.perform polls call).outcome = .ok .done) :
    (s.perform polls call).after.Intact position pio base := by
  obtain ⟨rfl, code, holds, stands⟩ := intact
  by_cases still : call.movesPrograms = false
  · obtain ⟨handle, residents, keeps⟩ := s.perform_still polls still
    refine ⟨by rw [handle], code, ?_, by rwa [residents]⟩
    exact keeps (·.HoldsCode position pio _ code)
      (fun _ _ outside holds => holds.read_outside window outside)
      (fun _ _ _ outside holds => holds.write_outside window outside) holds
  cases call with
  | load p offset =>
    obtain ⟨f, h⟩ | ⟨found, placed, loaded⟩ := s.perform_load polls p offset
    · rw [h]
      exact ⟨rfl, code, holds, stands⟩
    obtain ⟨code', holds', kept, stored⟩ := holds.writeProgram window p found.offset
    have others : ∀ r ∈ s.residents, r.StandsIn code' := fun r h =>
      (stands r h).congr fun slot hs =>
        kept slot (Finset.disjoint_right.mp (c.disjoint_of_placed placed h) hs)
    obtain ⟨f, -, h⟩ | ⟨done, h⟩ := loaded
    · rw [h]
      exact ⟨rfl, code', holds', others⟩
    · rw [h]
      refine ⟨rfl, code', holds', fun r member => ?_⟩
      rcases List.mem_cons.mp member with rfl | member
      · exact stored done
      · exact others r member
  | unload p offset =>
    rw [c.perform_unload polls (r := ⟨p, offset⟩) permitted]
    exact ⟨rfl, code, holds, fun r h => stands r (List.mem_of_mem_erase h)⟩
  | clear =>
    have done := cleared rfl
    obtain ⟨code', holds'⟩ := holds.clear window
    rw [perform_clear] at done ⊢
    split at done
    · exact ⟨rfl, code', holds', fun r h => nomatch h⟩
    · cases done
  | allocate r checkOnly =>
    subst permitted
    exact absurd rfl still
  | loadInto base p offset | clearIn base => exact permitted.elim
  | _ => exact absurd rfl still

end Intact

theorem intact_history {d : Dispatch β} {block : β} {index : Nat}
    (hosts : d.Hosts position pio base block) (window : Layout.IsWindow base) {polls : Nat}
    {calls : List Operation}
    (permitted : ∀ e ∈ (fresh (Handle.at_ index base) d).history polls calls,
      e.before.Permits e.call)
    (cleared : ∀ e ∈ (fresh (Handle.at_ index base) d).history polls calls,
      e.call = .clear → e.outcome = .ok .done) :
    ∀ e ∈ (fresh (Handle.at_ index base) d).history polls calls,
      e.before.Intact position pio base ∧ e.after.Intact position pio base := by
  have kept := history_keeps
    (I := fun s => s.Consistent ∧ s.Intact position pio base)
    (P := fun e => e.before.Permits e.call ∧ (e.call = .clear → e.outcome = .ok .done))
    (fun s call ⟨c, intact⟩ ⟨allowed, clears⟩ =>
      ⟨c.perform polls call allowed, intact.perform c window polls allowed clears⟩)
    ⟨consistent_fresh index base d, intact_fresh index hosts⟩
    (fun e he => ⟨permitted e he, cleared e he⟩)
  exact fun e he => ⟨(kept e he).1.2, (kept e he).2.2⟩

/-- Whatever is called through the handle of a block and whichever writes fail, as long as no
clearing fails each resident stands in its slots, relocated where it may be, and a load, even one
that fails on the way, leaves the words of the other residents as they were. -/
theorem code_of_history {d : Dispatch β} {block : β} {h : Handle}
    (made : Handle.pio pio = .ok h) (hosts : d.Hosts position pio h.base block) (polls : Nat)
    (calls : List Operation)
    (permitted : ∀ e ∈ (fresh h d).history polls calls, e.before.Permits e.call)
    (cleared : ∀ e ∈ (fresh h d).history polls calls, e.call = .clear → e.outcome = .ok .done) :
    ∀ e ∈ (fresh h d).history polls calls,
      (∀ r ∈ e.after.residents, ∀ n i, r.program.instructions[n]? = some i →
        e.after.space.wordAt position (.instrMem (slotAt r.offset n)) =
          some ((if r.program.isRelocatable then i.relocate r.offset else i).setWidth 32)) ∧
      ∀ p offset, e.call = .load p offset → ∀ r ∈ e.before.residents,
        r ∈ e.after.residents ∧ ∀ slot ∈ r.slots,
          e.after.space.wordAt position (.instrMem slot) =
            e.before.space.wordAt position (.instrMem slot) := by
  cases mapped : Layout.blockBase? pio with
  | none =>
    rw [Handle.pio, mapped] at made
    cases made
  | some base =>
    rw [Handle.pio, mapped] at made
    cases made
    intro e he
    obtain ⟨before, after⟩ :=
      intact_history hosts (Layout.isWindow_of_blockBase? mapped) permitted cleared e he
    refine ⟨fun r member n i at_n => after.wordAt_eq member at_n, ?_⟩
    intro p offset called r member
    have performed := eq_perform_of_mem_history he
    rw [called] at performed
    have stays : r ∈ e.after.residents := by
      rw [performed]
      exact mem_residents_of_load polls member
    refine ⟨stays, fun slot hs => ?_⟩
    obtain ⟨n, lt, rfl⟩ := Program.mem_slotSet.mp hs
    have at_n := List.getElem?_eq_getElem lt
    rw [after.wordAt_eq stays at_n, before.wordAt_eq member at_n]

theorem hosts_sampleBench :
    sampleBench.Hosts 0 0 0x50200000
      ((BenchBlock.plain (RegisterFile.pioAt 0 0x50200000)).plan ⟨20, .write, 0, 1, "stuck"⟩) :=
  Dispatch.hosts_alone rfl rfl

theorem code_of_sampleCalls :
    Handle.pio 0 = .ok (Handle.at_ 0 0x50200000) ∧
    (∀ e ∈ (fresh (Handle.at_ 0 0x50200000) sampleBench).history 1 sampleCalls,
      e.before.Permits e.call) ∧
    (∀ e ∈ (fresh (Handle.at_ 0 0x50200000) sampleBench).history 1 sampleCalls,
      e.call = .clear → e.outcome = .ok .done) ∧
    ∀ e ∈ (fresh (Handle.at_ 0 0x50200000) sampleBench).history 1 sampleCalls,
      (∀ r ∈ e.after.residents, ∀ n i, r.program.instructions[n]? = some i →
        e.after.space.wordAt 0 (.instrMem (slotAt r.offset n)) =
          some ((if r.program.isRelocatable then i.relocate r.offset else i).setWidth 32)) ∧
      ∀ p offset, e.call = .load p offset → ∀ r ∈ e.before.residents,
        r ∈ e.after.residents ∧ ∀ slot ∈ r.slots,
          e.after.space.wordAt 0 (.instrMem slot) = e.before.space.wordAt 0 (.instrMem slot) := by
  have permitted : ∀ e ∈ (fresh (Handle.at_ 0 0x50200000) sampleBench).history 1 sampleCalls,
      e.before.Permits e.call := by decide +kernel
  have cleared : ∀ e ∈ (fresh (Handle.at_ 0 0x50200000) sampleBench).history 1 sampleCalls,
      e.call = .clear → e.outcome = .ok .done := by decide +kernel
  exact ⟨rfl, permitted, cleared,
    code_of_history rfl hosts_sampleBench 1 sampleCalls permitted cleared⟩

end Session

end PioBlock
