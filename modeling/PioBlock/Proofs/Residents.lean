import PioBlock.Proofs.Session
import PioBlock.Bench
import Mathlib.Data.List.Pairwise

/-! The mask of a handle and the programs that are loaded through it. The mask is computed from
requests and given-back slots alone, yet at all times its ones are the slots of the residents, of
which no two share one. Hence unloading a resident never finds one of its slots free. -/

namespace PioBlock

namespace Session

variable {σ : Type}

structure Consistent (s : Session σ) : Prop where
  taken : ∀ slot, slot ∈ slotsOf s.handle.occupancy ↔ ∃ r ∈ s.residents, slot ∈ r.slots
  apart : s.residents.Pairwise fun a b => Disjoint a.slots b.slots
  standing : ∀ r ∈ s.residents, r.program.CanStandAt r.offset

theorem consistent_fresh (index : Nat) (base : Word) (space : σ) :
    (fresh (Handle.at_ index base) space).Consistent where
  taken slot := by simp [fresh, Handle.at_]
  apart := List.Pairwise.nil
  standing r h := nomatch h

namespace Consistent

variable {s : Session σ}

theorem congr {t : Session σ} (c : s.Consistent)
    (occupancy : t.handle.occupancy = s.handle.occupancy) (residents : t.residents = s.residents) :
    t.Consistent := by
  obtain ⟨taken, apart, standing⟩ := c
  constructor <;> rw [residents]
  · rwa [occupancy]
  · exact apart
  · exact standing

theorem disjoint (c : s.Consistent) {a b : Resident} (ha : a ∈ s.residents)
    (hb : b ∈ s.residents) (ne : a ≠ b) : Disjoint a.slots b.slots :=
  have : Std.Symm fun a b : Resident => Disjoint a.slots b.slots := ⟨fun _ _ h => h.symm⟩
  c.apart.forall ha hb ne

theorem nodup (c : s.Consistent) : s.residents.Nodup := by
  refine c.apart.imp fun {a b} apart => ?_
  rintro rfl
  exact (a.program.slotSet_nonempty a.offset).ne_empty (disjoint_self.mp apart)

theorem subset (c : s.Consistent) {r : Resident} (h : r ∈ s.residents) :
    r.slots ⊆ slotsOf s.handle.occupancy :=
  fun slot hs => (c.taken slot).mpr ⟨r, h, hs⟩

theorem disjoint_of_placed (c : s.Consistent) {p : Program} {offset : Option Nat}
    {found : Placement} (placed : p.PlacedAs offset s.handle.occupancy found) {r : Resident}
    (h : r ∈ s.residents) : Disjoint (p.slotSet found.offset) r.slots := by
  have free := isFree_iff_disjoint.mp placed.isFree
  rw [placed.slots_eq, Program.slotsOf_slotsAt] at free
  exact (free.mono_left (c.subset h)).symm

theorem load (c : s.Consistent) {p : Program} {offset : Option Nat} {found : Placement}
    (placed : p.PlacedAs offset s.handle.occupancy found) (space : σ) :
    Consistent ⟨{ s.handle with occupancy := s.handle.occupancy ||| found.slots }, space,
      ⟨p, found.offset⟩ :: s.residents⟩ where
  taken slot := by
    simp only [slotsOf_or, placed.slots_eq, Program.slotsOf_slotsAt, Finset.mem_union, c.taken,
      List.mem_cons, exists_eq_or_imp]
    exact or_comm
  apart := List.pairwise_cons.mpr ⟨fun r h => c.disjoint_of_placed placed h, c.apart⟩
  standing r h := by
    rcases List.mem_cons.mp h with rfl | h
    · exact placed.canStandAt
    · exact c.standing r h

theorem unload (c : s.Consistent) {r : Resident} (h : r ∈ s.residents) :
    Consistent ⟨{ s.handle with
        occupancy := s.handle.occupancy &&& ~~~r.program.slotsAt r.offset },
      s.space, s.residents.erase r⟩ where
  taken slot := by
    -- Erasing takes away one resident only, so it matters that none is there twice.
    simp only [slotsOf_and_not, Program.slotsOf_slotsAt, Finset.mem_sdiff, c.taken,
      c.nodup.mem_erase_iff]
    constructor
    · rintro ⟨⟨other, member, hs⟩, apart⟩
      refine ⟨other, ⟨?_, member⟩, hs⟩
      rintro rfl
      exact apart hs
    · rintro ⟨other, ⟨ne, member⟩, hs⟩
      exact ⟨⟨other, member, hs⟩, Finset.disjoint_left.mp (c.disjoint member h ne) hs⟩
  apart := c.apart.sublist List.erase_sublist
  standing other member := c.standing other (List.mem_of_mem_erase member)

variable [RegisterSpace σ]

theorem perform_unload (c : s.Consistent) (polls : Nat) {r : Resident} (h : r ∈ s.residents) :
    s.perform polls (.unload r.program r.offset) =
      ⟨s, .unload r.program r.offset, .ok .done,
        ⟨{ s.handle with occupancy := s.handle.occupancy &&& ~~~r.program.slotsAt r.offset },
          s.space, s.residents.erase r⟩⟩ := by
  rw [Session.perform_unload, Program.request_of_canStandAt (c.standing r h)]
  exact if_pos (c.subset h)

/-- What the mask and the residents agree on, every permitted call keeps. -/
theorem perform (c : s.Consistent) (polls : Nat) (call : Operation) (permitted : s.Permits call) :
    (s.perform polls call).after.Consistent := by
  by_cases still : call.movesPrograms = false
  · obtain ⟨handle, residents, -⟩ := s.perform_still polls still
    exact c.congr (by rw [handle]) residents
  cases call with
  | load p offset =>
    obtain ⟨f, h⟩ | ⟨found, placed, ⟨f, -, h⟩ | ⟨-, h⟩⟩ := s.perform_load polls p offset
    · rw [h]
      exact c
    · rw [h]
      exact c.congr rfl rfl
    · rw [h]
      exact c.load placed _
  | unload p offset =>
    rw [c.perform_unload polls (r := ⟨p, offset⟩) permitted]
    exact c.unload permitted
  | clear =>
    rw [perform_clear]
    split
    · exact ⟨by simp, List.Pairwise.nil, fun r h => nomatch h⟩
    · exact c.congr rfl rfl
  | allocate r checkOnly =>
    subst permitted
    exact absurd rfl still
  | loadInto base p offset | clearIn base => exact permitted.elim
  | _ => exact absurd rfl still

end Consistent

variable [RegisterSpace σ]

theorem perform_error (s : Session σ) (polls : Nat) (call : Operation)
    (permitted : s.Permits call) {f : Failure}
    (failed : (s.perform polls call).outcome = .error f) :
    (s.perform polls call).after.handle.occupancy = s.handle.occupancy := by
  by_cases still : call.movesPrograms = false
  · rw [(s.perform_still polls still).1]
  cases call with
  | load p offset =>
    obtain ⟨g, h⟩ | ⟨found, placed, ⟨g, -, h⟩ | ⟨-, h⟩⟩ := s.perform_load polls p offset
    · rw [h]
    · rw [h]
    · rw [h] at failed
      cases failed
  | unload p offset =>
    rw [perform_unload] at failed ⊢
    split at failed
    · rfl
    · split at failed
      · cases failed
      · next h => rw [if_neg h]
  | clear =>
    rw [perform_clear] at failed ⊢
    split at failed
    · cases failed
    · rfl
  | allocate r checkOnly =>
    subst permitted
    exact absurd rfl still
  | loadInto base p offset | clearIn base => exact permitted.elim
  | _ => exact absurd rfl still

theorem consistent_history {index : Nat} {base : Word} {space : σ} {polls : Nat}
    {calls : List Operation}
    (permitted : ∀ e ∈ (fresh (Handle.at_ index base) space).history polls calls,
      e.before.Permits e.call) :
    ∀ e ∈ (fresh (Handle.at_ index base) space).history polls calls,
      e.before.Consistent ∧ e.after.Consistent :=
  history_keeps (fun _ call c allowed => c.perform polls call allowed)
    (consistent_fresh index base space) permitted

/-- Whatever is called through a handle and however its accesses end, after each call the taken
slots are those of the residents, no two of which overlap; a resident is always unloaded, and a
call that fails leaves the taken slots as they were. -/
theorem occupancy_of_history (index : Nat) (base : Word) (space : σ) (polls : Nat)
    (calls : List Operation)
    (permitted : ∀ e ∈ (fresh (Handle.at_ index base) space).history polls calls,
      e.before.Permits e.call) :
    ∀ e ∈ (fresh (Handle.at_ index base) space).history polls calls,
      (∀ slot, slot ∈ slotsOf e.after.handle.occupancy ↔
        ∃ r ∈ e.after.residents, ∃ n < r.program.length, slot = slotAt r.offset n) ∧
      e.after.residents.Pairwise (fun a b => Disjoint a.slots b.slots) ∧
      (∀ p offset, e.call = .unload p offset → e.outcome = .ok .done) ∧
      (∀ f, e.outcome = .error f → e.after.handle.occupancy = e.before.handle.occupancy) := by
  intro e he
  obtain ⟨before, after⟩ := consistent_history permitted e he
  have allowed := permitted e he
  have performed := eq_perform_of_mem_history he
  refine ⟨fun slot => ?_, after.apart, ?_, ?_⟩
  · simp only [after.taken, Resident.slots, Program.mem_slotSet, eq_comm]
  · intro p offset called
    rw [called] at performed allowed
    rw [performed, before.perform_unload polls (r := ⟨p, offset⟩) allowed]
  · intro f failed
    rw [performed] at failed ⊢
    exact e.before.perform_error polls e.call allowed failed

/-! A loop of two instructions on a bench whose slot 2 refuses its first write. It is loaded around
the end of the memory, fails to load next to itself and over itself, moves, and is cleared away. -/

def sampleLoop : Program where
  id := none
  origin := none
  wrap := slotAt 0 1
  wrapTarget := slotAt 0 0
  sideSet := .none
  instructions := [0xe081, 0x0000]
  id_ne_empty := by decide
  sideSet_le := by decide
  instructions_pos := by decide
  instructions_le := by decide

def sampleBench : Dispatch BenchBlock :=
  ⟨[(BenchBlock.plain (RegisterFile.pioAt 0 0x50200000)).plan ⟨20, .write, 0, 1, "stuck"⟩]⟩

def sampleCalls : List Operation :=
  [.load sampleLoop (some 31), .load sampleLoop none, .load sampleLoop (some 0),
    .setEnabled 0 true, .unload sampleLoop 31, .load sampleLoop none, .clear]

theorem occupancy_of_sampleCalls :
    (∀ e ∈ (fresh (Handle.at_ 0 0x50200000) sampleBench).history 1 sampleCalls,
      e.before.Permits e.call) ∧
    ∀ e ∈ (fresh (Handle.at_ 0 0x50200000) sampleBench).history 1 sampleCalls,
      (∀ slot, slot ∈ slotsOf e.after.handle.occupancy ↔
        ∃ r ∈ e.after.residents, ∃ n < r.program.length, slot = slotAt r.offset n) ∧
      e.after.residents.Pairwise (fun a b => Disjoint a.slots b.slots) ∧
      (∀ p offset, e.call = .unload p offset → e.outcome = .ok .done) ∧
      (∀ f, e.outcome = .error f → e.after.handle.occupancy = e.before.handle.occupancy) := by
  have permitted : ∀ e ∈ (fresh (Handle.at_ 0 0x50200000) sampleBench).history 1 sampleCalls,
      e.before.Permits e.call := by decide +kernel
  exact ⟨permitted, occupancy_of_history 0 0x50200000 sampleBench 1 sampleCalls permitted⟩

end Session

end PioBlock
