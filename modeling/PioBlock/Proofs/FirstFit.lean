import PioBlock.Proofs.Residents
import PioBlock.Proofs.Faults

/-! Where a load puts a program. A program fits at an offset when the slots from there on, around
the end of the memory, are free, one for each instruction. The search for a place rotates masks;
what it finds is the least offset that fits, or the origin of a program that has one. Asking first
goes the same way as loading, so its answer tells how a load would end if none of its writes
failed. -/

namespace PioBlock

namespace Program

variable {p : Program} {taken : Word}

/-- The slots that the program needs at this offset are all free. -/
def Fits (p : Program) (taken : Word) (offset : Nat) : Prop :=
  ∀ n < p.length, taken.getLsbD ((offset + n) % 32) = false

instance (p : Program) (taken : Word) : DecidablePred (p.Fits taken) :=
  fun _ => Nat.decidableBallLT ..

theorem isFree_slotsAt_iff {offset : Nat} :
    isFree taken (p.slotsAt offset) = true ↔ p.Fits taken offset := by
  rw [isFree_iff_disjoint, slotsOf_slotsAt, Finset.disjoint_right]
  constructor
  · intro apart n hn
    have free := apart (mem_slotSet.mpr ⟨n, hn, rfl⟩)
    rwa [mem_slotsOf, slotAt_val, Bool.not_eq_true] at free
  · intro fits s taking
    obtain ⟨n, hn, rfl⟩ := mem_slotSet.mp taking
    rw [mem_slotsOf, slotAt_val, Bool.not_eq_true]
    exact fits n hn

/-- Where the program goes when no write fails, or why it goes nowhere. -/
def placing (p : Program) (offset : Option Nat) (taken : Word) : Except PioError Nat :=
  match p.request offset with
  | .error e => .error (.ofRequestFault e)
  | .ok r =>
    match r.place? taken with
    | none => .error .noSpace
    | some found => .ok found.offset

theorem placing_anywhere (relocatable : p.origin = none) :
    p.placing none taken =
      match (List.range 32).find? (p.Fits taken ·) with
      | none => .error .noSpace
      | some offset => .ok offset := by
  have asked : p.request none = .ok ⟨p.baseMask, none⟩ := by simp [request, relocatable]
  have tried : (⟨p.baseMask, none⟩ : SlotRequest).place? taken =
      ((List.range 32).find? (p.Fits taken ·)).map fun o => ⟨o, p.slotsAt o⟩ := by
    rw [SlotRequest.place?, SlotRequest.candidates, List.find?_map]
    congr 2
    funext o
    exact Bool.eq_iff_iff.mpr (isFree_slotsAt_iff.trans decide_eq_true_iff.symm)
  rw [placing, asked]
  dsimp only
  rw [tried]
  cases (List.range 32).find? (p.Fits taken ·) <;> rfl

theorem placing_anywhere_eq_ok_iff (relocatable : p.origin = none) {offset : Nat} :
    p.placing none taken = .ok offset ↔
      offset < 32 ∧ p.Fits taken offset ∧ ∀ lower < offset, ¬ p.Fits taken lower := by
  have first := @List.find?_range_eq_some 32 offset (p.Fits taken ·)
  simp only [decide_eq_true_eq, List.mem_range, Bool.not_eq_true', decide_eq_false_iff_not] at first
  rw [placing_anywhere relocatable, and_left_comm, ← first]
  cases (List.range 32).find? (p.Fits taken ·) <;> simp

theorem not_fits_of_placing_anywhere (relocatable : p.origin = none) {e : PioError}
    (failed : p.placing none taken = .error e) (offset : Nat) : ¬ p.Fits taken offset := by
  rw [placing_anywhere relocatable] at failed
  cases found : (List.range 32).find? (p.Fits taken ·) with
  | some o => rw [found] at failed; cases failed
  | none =>
    intro fits
    have wrapped : p.Fits taken (offset % 32) := fun n hn => by
      rw [Nat.mod_add_mod]
      exact fits n hn
    have outside := List.find?_range_eq_none.mp found (offset % 32) (Nat.mod_lt _ (by decide))
    simp only [wrapped, decide_true, Bool.not_true, Bool.false_eq_true] at outside

theorem placing_of_canStandAt {offset : Nat} (stand : p.CanStandAt offset) :
    p.placing (some offset) taken =
      if p.Fits taken offset then .ok offset else .error .noSpace := by
  rw [placing, request_of_canStandAt stand]
  simp only [SlotRequest.place?, SlotRequest.candidates, List.find?_singleton,
    ← isFree_slotsAt_iff]
  cases isFree taken (p.slotsAt offset) <;> rfl

theorem placing_fixed {origin : Slot} (fixed : p.origin = some origin) :
    p.placing none taken = p.placing (some origin.val) taken := by
  simp only [placing, request, fixed, if_true]

theorem canStandAt_of_placing {offset : Option Nat} {o : Nat}
    (placed : p.placing offset taken = .ok o) : p.CanStandAt o := by
  unfold placing at placed
  split at placed
  · cases placed
  · next r asked =>
    split at placed
    · cases placed
    · next found place =>
      cases placed
      exact PlacedAs.canStandAt ⟨r, asked, place⟩

end Program

namespace Operation

def Asks (p : Program) (offset : Option Nat) (call : Operation) : Prop :=
  call = .canLoad p offset ∨ call = .canLoadAnywhere p ∧ offset = none

def Loads (p : Program) (offset : Option Nat) (call : Operation) : Prop :=
  call = .load p offset ∨ ∃ base, call = .loadInto base p offset

end Operation

namespace Session

open Control

variable {σ : Type} [RegisterSpace σ]

def accesses (s : Session σ) (polls : Nat) (call : Operation) : List Access :=
  (((call.perform polls).start s.handle).run s.space).trace

theorem start_asks {p : Program} {offset : Option Nat} {ask : Operation}
    (asks : ask.Asks p offset) (polls : Nat) (h : Handle) :
    (ask.perform polls).start h =
      (canLoad p offset).start h >>= fun ended => .done (ended.1.map .truth, ended.2) := by
  obtain rfl | ⟨rfl, rfl⟩ := asks
  · exact start_returning Answer.truth (canLoad p offset) h
  · refine (start_returning Answer.truth (canLoadAnywhere p) h).trans ?_
    obtain ⟨b, asked⟩ := start_canLoad_none p h
    rw [canLoadAnywhere, start_tryCatch, asked]
    rfl

theorem perform_asks (s : Session σ) (polls : Nat) {p : Program} {offset : Option Nat}
    {ask : Operation} (asks : ask.Asks p offset) :
    (s.perform polls ask).after = s ∧
      (s.perform polls ask).outcome =
        match p.placing offset s.handle.occupancy with
        | .ok _ => .ok (.truth true)
        | .error .noSpace => .ok (.truth false)
        | .error e => .error (.error e) := by
  have still : ask.movesPrograms = false := by obtain rfl | ⟨rfl, -⟩ := asks <;> rfl
  simp only [perform, settle_of_not_movesPrograms _ still, start_asks asks, start_canLoad,
    Program.placing]
  cases p.request offset with
  | error fault => cases fault <;> exact ⟨rfl, rfl⟩
  | ok r =>
    dsimp only
    cases r.place? s.handle.occupancy <;> exact ⟨rfl, rfl⟩

theorem start_loads {p : Program} {offset : Option Nat} {call : Operation}
    (loads : call.Loads p offset) (polls : Nat) (h : Handle) :
    ∃ base, (call.perform polls).start h =
      (loadInto base p offset).start h >>= fun ended => .done (ended.1.map .number, ended.2) := by
  obtain rfl | ⟨base, rfl⟩ := loads
  · exact ⟨h.base, start_load p offset h ▸ start_perform_load p offset polls h⟩
  · exact ⟨base, start_returning Answer.number (loadInto base p offset) h⟩

theorem perform_loads {s : Session σ} {polls : Nat} {p : Program} {offset : Option Nat}
    {call : Operation} (loads : call.Loads p offset)
    (faultless : ∀ access ∈ s.accesses polls call, access.error? = none) :
    (s.perform polls call).outcome =
      ((p.placing offset s.handle.occupancy).mapError Failure.error).map .number := by
  obtain ⟨base, started⟩ := start_loads loads polls s.handle
  simp only [accesses, perform, started, start_loadInto, Program.placing] at faultless ⊢
  cases asked : p.request offset with
  | error e => rfl
  | ok r =>
    cases place : r.place? s.handle.occupancy with
    | none =>
      simp only [place]
      rfl
    | some found =>
      simp only [asked, place, Procedure.bind_assoc, Procedure.run_bind] at faultless ⊢
      have written := (Transaction.attempts_writeAll (loadWrites base p found.offset) s.space).2
      rw [Access.ended_of_faultless fun access made =>
        faultless access (List.mem_append_left _ made)] at written
      rw [written]
      rfl

/-- Asking and loading end alike in each of the three ways that the search can end. -/
theorem asked_and_loaded {s : Session σ} {polls : Nat} {p : Program} {offset : Option Nat}
    {ask call : Operation} (asks : ask.Asks p offset) (loads : call.Loads p offset)
    (faultless : ∀ access ∈ s.accesses polls call, access.error? = none) :
    (∃ o, p.placing offset s.handle.occupancy = .ok o ∧
      (s.perform polls ask).outcome = .ok (.truth true) ∧
      (s.perform polls call).outcome = .ok (.number o)) ∨
    (p.placing offset s.handle.occupancy = .error .noSpace ∧
      (s.perform polls ask).outcome = .ok (.truth false) ∧
      (s.perform polls call).outcome = .error (.error .noSpace)) ∨
    ∃ e, e ≠ .noSpace ∧ p.placing offset s.handle.occupancy = .error e ∧
      (s.perform polls ask).outcome = .error (.error e) ∧
      (s.perform polls call).outcome = .error (.error e) := by
  rw [perform_loads loads faultless, (s.perform_asks polls asks).2]
  cases p.placing offset s.handle.occupancy with
  | ok o => exact .inl ⟨o, rfl, rfl, rfl⟩
  | error e =>
    by_cases space : e = .noSpace
    · subst space
      exact .inr (.inl ⟨rfl, rfl, rfl⟩)
    · refine .inr (.inr ⟨e, space, rfl, ?_, rfl⟩)
      cases e <;> first | rfl | exact absurd rfl space

/-- What asking tells of a load, and where the load goes. -/
structure FirstFit (s : Session σ) (p : Program) (offset : Option Nat) (asked loaded : Event σ) :
    Prop where
  possible : asked.outcome = .ok (.truth true) ↔ ∃ o, loaded.outcome = .ok (.number o)
  impossible : asked.outcome = .ok (.truth false) ↔ loaded.outcome = .error (.error .noSpace)
  refused : (∀ b, asked.outcome ≠ .ok (.truth b)) →
    ∃ e, asked.outcome = .error (.error e) ∧ loaded.outcome = .error (.error e)
  unchanged : asked.after = s
  least : p.origin = none → offset = none → ∀ o, loaded.outcome = .ok (.number o) ↔
    o < 32 ∧ p.Fits s.handle.occupancy o ∧ ∀ lower < o, ¬ p.Fits s.handle.occupancy lower
  nowhere : p.origin = none → offset = none → ∀ f, loaded.outcome = .error f →
    ∀ o, ¬ p.Fits s.handle.occupancy o
  at_origin : ∀ origin, p.origin = some origin → offset = none ∨ offset = some origin.val →
    (loaded.outcome = .ok (.number origin.val) ↔ p.Fits s.handle.occupancy origin.val)
  only_at_origin : ∀ origin, p.origin = some origin →
    ∀ o, loaded.outcome = .ok (.number o) → o = origin.val

/-- On a bus where none of its accesses fails, a load goes to the first place that fits, or to its
origin, and asking before tells how it ends. -/
theorem canLoad_predicts_load (s : Session σ) (polls : Nat) (p : Program) (offset : Option Nat)
    {ask call : Operation} (asks : ask.Asks p offset) (loads : call.Loads p offset)
    (faultless : ∀ access ∈ s.accesses polls call, access.error? = none) :
    FirstFit s p offset (s.perform polls ask) (s.perform polls call) := by
  have ends := asked_and_loaded asks loads faultless
  have number : ∀ o, (s.perform polls call).outcome = .ok (.number o) ↔
      p.placing offset s.handle.occupancy = .ok o := by
    intro o
    obtain ⟨o', placed, -, loaded⟩ | ⟨placed, -, loaded⟩ | ⟨e, -, placed, -, loaded⟩ := ends <;>
      simp [placed, loaded]
  refine ⟨?possible, ?impossible, ?refused, (s.perform_asks polls asks).1, ?least, ?nowhere,
    ?at_origin, ?only_at_origin⟩
  case possible =>
    obtain ⟨o, -, asked, loaded⟩ | ⟨-, asked, loaded⟩ | ⟨e, -, -, asked, loaded⟩ := ends <;>
      simp [asked, loaded]
  case impossible =>
    obtain ⟨o, -, asked, loaded⟩ | ⟨-, asked, loaded⟩ | ⟨e, other, -, asked, loaded⟩ := ends
    · simp [asked, loaded]
    · simp [asked, loaded]
    · simp [asked, loaded, other]
  case refused =>
    intro neither
    obtain ⟨o, -, asked, -⟩ | ⟨-, asked, -⟩ | ⟨e, -, -, asked, loaded⟩ := ends
    · exact absurd asked (neither true)
    · exact absurd asked (neither false)
    · exact ⟨e, asked, loaded⟩
  case least =>
    rintro relocatable rfl o
    rw [number, Program.placing_anywhere_eq_ok_iff relocatable]
  case nowhere =>
    rintro relocatable rfl f failed
    obtain ⟨o, -, -, loaded⟩ | ⟨placed, -⟩ | ⟨e, -, placed, -⟩ := ends
    · rw [loaded] at failed
      cases failed
    · exact Program.not_fits_of_placing_anywhere relocatable placed
    · exact Program.not_fits_of_placing_anywhere relocatable placed
  case at_origin =>
    intro origin fixed here
    have stand : p.CanStandAt origin.val := ⟨origin.isLt, by simp [fixed]⟩
    have placed : p.placing offset s.handle.occupancy =
        p.placing (some origin.val) s.handle.occupancy := by
      obtain rfl | rfl := here
      · exact Program.placing_fixed fixed
      · rfl
    rw [number, placed, Program.placing_of_canStandAt stand]
    split <;> simp_all
  case only_at_origin =>
    intro origin fixed o ended
    exact ((Program.canStandAt_of_placing ((number o).mp ended)).2 origin fixed).symm

/-! The loop goes around the end of a memory of which only slots 0 and 31 are free, though slot 20
refuses its first write; a load into slot 20 would not be without a fault. -/

def sampleFull : Session (Dispatch BenchBlock) :=
  { fresh (Handle.at_ 0 0x50200000) sampleBench with
    handle := { Handle.at_ 0 0x50200000 with occupancy := 0x7ffffffe } }

theorem canLoad_predicts_load_sampleFull :
    Operation.Asks sampleLoop none (.canLoadAnywhere sampleLoop) ∧
    Operation.Loads sampleLoop none (.load sampleLoop none) ∧
    (∀ access ∈ sampleFull.accesses 1 (.load sampleLoop none), access.error? = none) ∧
    FirstFit sampleFull sampleLoop none (sampleFull.perform 1 (.canLoadAnywhere sampleLoop))
      (sampleFull.perform 1 (.load sampleLoop none)) ∧
    (sampleFull.perform 1 (.load sampleLoop none)).outcome = .ok (.number 31) := by
  have asks : Operation.Asks sampleLoop none (.canLoadAnywhere sampleLoop) := .inr ⟨rfl, rfl⟩
  have loads : Operation.Loads sampleLoop none (.load sampleLoop none) := .inl rfl
  have faultless : ∀ access ∈ sampleFull.accesses 1 (.load sampleLoop none),
      access.error? = none := by decide +kernel
  have predicted := canLoad_predicts_load sampleFull 1 sampleLoop none asks loads faultless
  exact ⟨asks, loads, faultless, predicted, (predicted.least rfl rfl 31).mpr (by decide +kernel)⟩

end Session

end PioBlock
