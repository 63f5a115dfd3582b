import PioBlock.Proofs.Loading
import PioBlock.Proofs.Subjects

/-! A session is a handle in use on a register space. It keeps, beside the handle and the space,
the residents: the programs that were loaded through the handle and have not been unloaded or
cleared since, each with its offset. The handle knows nothing of them, it only keeps a mask. The
history of a session lists its calls with the session before and after each. -/

namespace PioBlock

/-- A program that is loaded, and where. -/
structure Resident where
  program : Program
  offset : Nat
deriving DecidableEq, Repr

def Resident.slots (r : Resident) : Finset Slot := r.program.slotSet r.offset

structure Session (σ : Type) where
  handle : Handle
  space : σ
  residents : List Resident

structure Event (σ : Type) where
  before : Session σ
  call : Operation
  outcome : Except Failure Answer
  after : Session σ

namespace Session

open Control

variable {σ : Type} [RegisterSpace σ]

def fresh (h : Handle) (space : σ) : Session σ := ⟨h, space, []⟩

/-- What a call that ended so makes of the residents. A program is entered at the offset that was
asked for, and where any would do at the one that was answered. -/
def settle (residents : List Resident) : Operation → Except Failure Answer → List Resident
  | .load p asked, .ok (.number offset) => ⟨p, asked.getD offset⟩ :: residents
  | .unload p offset, .ok .done => residents.erase ⟨p, offset⟩
  | .clear, .ok .done => []
  | _, _ => residents

def perform (s : Session σ) (polls : Nat) (call : Operation) : Event σ :=
  let r := ((call.perform polls).start s.handle).run s.space
  ⟨s, call, r.value.1, ⟨r.value.2, r.space, settle s.residents call r.value.1⟩⟩

def history (polls : Nat) (s : Session σ) : List Operation → List (Event σ)
  | [] => []
  | call :: rest => s.perform polls call :: (s.perform polls call).after.history polls rest

/-- What a caller keeps to: it unloads what is loaded, and takes slots for programs only. -/
def Permits (s : Session σ) : Operation → Prop
  | .unload p offset => ⟨p, offset⟩ ∈ s.residents
  | .allocate _ checkOnly => checkOnly = true
  | .loadInto .. | .clearIn _ => False
  | _ => True

instance (s : Session σ) : DecidablePred s.Permits := fun call => by
  cases call <;> unfold Permits <;> infer_instance

def writing (s : Session σ) (p : Program) (offset : Nat) :
    Run σ (Except RegisterError Unit) :=
  (ExceptT.run (Transaction.writeAll (loadWrites s.handle.base p offset))).run s.space

theorem start_perform_load (p : Program) (offset : Option Nat) (polls : Nat) (h : Handle) :
    ((Operation.load p offset).perform polls).start h =
      (load p offset).start h >>= fun ended => .done (ended.1.map .number, ended.2) :=
  start_returning Answer.number (load p offset) h

theorem perform_load (s : Session σ) (polls : Nat) (p : Program) (offset : Option Nat) :
    (∃ f, s.perform polls (.load p offset) = ⟨s, .load p offset, .error f, s⟩) ∨
    ∃ found, p.PlacedAs offset s.handle.occupancy found ∧
      ((∃ f, (s.writing p found.offset).value = .error f ∧
        s.perform polls (.load p offset) = ⟨s, .load p offset, .error (.error (.register f)),
          { s with space := (s.writing p found.offset).space }⟩) ∨
      ((s.writing p found.offset).value = .ok () ∧
        s.perform polls (.load p offset) = ⟨s, .load p offset, .ok (.number found.offset),
          ⟨{ s.handle with occupancy := s.handle.occupancy ||| found.slots },
            (s.writing p found.offset).space, ⟨p, found.offset⟩ :: s.residents⟩⟩)) := by
  have started := start_perform_load p offset polls s.handle
  cases asked : p.request offset with
  | error e =>
    refine Or.inl ⟨.error (.ofRequestFault e), ?_⟩
    simp only [perform, started, start_load, start_loadInto, asked]
    rfl
  | ok r =>
    cases place : r.place? s.handle.occupancy with
    | none =>
      refine Or.inl ⟨.error .noSpace, ?_⟩
      simp only [perform, started, start_load, start_loadInto, asked, place]
      rfl
    | some found =>
      refine Or.inr ⟨found, ⟨r, asked, place⟩, ?_⟩
      cases written : (s.writing p found.offset).value with
      | error f =>
        refine Or.inl ⟨f, rfl, ?_⟩
        simp only [perform, started, start_load, start_loadInto, asked, place,
          Procedure.bind_assoc, Procedure.run_bind]
        rw [writing] at written
        simp only [written]
        rfl
      | ok _ =>
        have entered : offset.getD found.offset = found.offset := by
          cases offset with
          | none => rfl
          | some n => exact (Program.PlacedAs.offset_eq ⟨r, asked, place⟩).symm
        have settled : settle s.residents (.load p offset) (.ok (.number found.offset)) =
            ⟨p, found.offset⟩ :: s.residents := by rw [settle, entered]
        refine Or.inr ⟨rfl, ?_⟩
        simp only [perform, started, start_load, start_loadInto, asked, place,
          Procedure.bind_assoc, Procedure.run_bind]
        rw [writing] at written
        simp only [written]
        exact congrArg (fun residents => Event.mk s (.load p offset) (.ok (.number found.offset))
          ⟨{ s.handle with occupancy := s.handle.occupancy ||| found.slots },
            (s.writing p found.offset).space, residents⟩) settled

theorem perform_load_ok {s : Session σ} {polls : Nat} {p : Program} {asked : Option Nat}
    {offset : Nat} (loaded : (s.perform polls (.load p asked)).outcome = .ok (.number offset)) :
    p.CanStandAt offset ∧ (s.writing p offset).value = .ok () ∧
      (s.perform polls (.load p asked)).after.space = (s.writing p offset).space ∧
      (s.perform polls (.load p asked)).after.handle.base = s.handle.base := by
  obtain ⟨f, e⟩ | ⟨found, placed, ⟨f, -, e⟩ | ⟨done, e⟩⟩ := s.perform_load polls p asked
  · rw [e] at loaded
    cases loaded
  · rw [e] at loaded
    cases loaded
  · rw [e] at loaded ⊢
    cases loaded
    exact ⟨placed.canStandAt, done, rfl, rfl⟩

theorem perform_load_of_isFree {s : Session σ} (polls : Nat) {p : Program} {offset : Nat}
    (stand : p.CanStandAt offset) (free : isFree s.handle.occupancy (p.slotsAt offset) = true)
    (done : (s.writing p offset).value = .ok ()) :
    (s.perform polls (.load p (some offset))).outcome = .ok (.number offset) := by
  have started := start_perform_load p (some offset) polls s.handle
  obtain ⟨r, asked, place⟩ := Program.PlacedAs.of_isFree stand free
  rw [writing] at done
  simp only [perform, started, start_load, start_loadInto, asked, place, Procedure.bind_assoc,
    Procedure.run_bind, done]
  rfl

theorem mem_residents_of_load {s : Session σ} {p : Program} {offset : Option Nat} (polls : Nat)
    {r : Resident} (h : r ∈ s.residents) :
    r ∈ (s.perform polls (.load p offset)).after.residents := by
  obtain ⟨f, e⟩ | ⟨found, -, ⟨f, -, e⟩ | ⟨-, e⟩⟩ := s.perform_load polls p offset
  · rw [e]
    exact h
  · rw [e]
    exact h
  · rw [e]
    exact List.mem_cons_of_mem _ h

theorem perform_unload (s : Session σ) (polls : Nat) (p : Program) (offset : Nat) :
    s.perform polls (.unload p offset) =
      match p.request (some offset) with
      | .error e => ⟨s, .unload p offset, .error (.error (.ofRequestFault e)), s⟩
      | .ok _ =>
        if p.slotSet offset ⊆ slotsOf s.handle.occupancy then
          ⟨s, .unload p offset, .ok .done,
            ⟨{ s.handle with occupancy := s.handle.occupancy &&& ~~~p.slotsAt offset }, s.space,
              s.residents.erase ⟨p, offset⟩⟩⟩
        else ⟨s, .unload p offset,
          .error (.breach ⟨p.slotsAt offset, offset, s.handle.occupancy⟩), s⟩ := by
  rw [perform, Operation.perform, Operation.acting, start_bind, start_unload]
  simp only [← p.slotsOf_slotsAt, ← and_eq_right_iff_subset]
  cases p.request (some offset) with
  | error e => rfl
  | ok r =>
    by_cases taken : s.handle.occupancy &&& p.slotsAt offset = p.slotsAt offset
    · simp only [if_pos taken]
      rfl
    · simp only [if_neg taken]
      rfl

def clearing (s : Session σ) : Run σ (Except RegisterError Unit) :=
  (ExceptT.run (Transaction.writeAll (clearWrites s.handle.base))).run s.space

theorem perform_clear (s : Session σ) (polls : Nat) :
    s.perform polls .clear =
      match s.clearing.value with
      | .ok () => ⟨s, .clear, .ok .done, ⟨{ s.handle with occupancy := 0 }, s.clearing.space, []⟩⟩
      | .error f =>
        ⟨s, .clear, .error (.error (.register f)), { s with space := s.clearing.space }⟩ := by
  rw [perform, Operation.perform, Operation.acting, start_bind, start_clear]
  simp only [Procedure.bind_assoc, Procedure.run_bind]
  rw [clearing]
  generalize Procedure.run _ s.space = cleared
  obtain ⟨f | _, space, trace⟩ := cleared <;> rfl

theorem settle_of_not_movesPrograms (residents : List Resident) {call : Operation}
    (still : call.movesPrograms = false) (outcome : Except Failure Answer) :
    settle residents call outcome = residents := by
  cases call <;> first | rfl | cases still

theorem perform_still (s : Session σ) (polls : Nat) {call : Operation}
    (still : call.movesPrograms = false) :
    s.handle.SameButClaims (s.perform polls call).after.handle ∧
      (s.perform polls call).after.residents = s.residents ∧
      ∀ I : σ → Prop,
        (∀ a t, Scope.outsideCode.Reads s.handle.base a → I t → I (RegisterSpace.read a t).2) →
        (∀ a w t, Scope.outsideCode.Writes s.handle.base a w → I t →
          I (RegisterSpace.write a w t).2) →
        I s.space → I (s.perform polls call).after.space := by
  have within := call.within_perform polls still s.handle s.handle rfl
  exact ⟨within.run_value s.space, settle_of_not_movesPrograms _ still _,
    fun I reads writes start => within.run_space reads writes start⟩

/-- What each permitted call keeps holds before and after every call of a history. -/
theorem history_keeps {polls : Nat} {I : Session σ → Prop} {P : Event σ → Prop}
    (step : ∀ s call, I s → P (s.perform polls call) → I (s.perform polls call).after)
    {calls : List Operation} {s : Session σ} (start : I s)
    (permitted : ∀ e ∈ s.history polls calls, P e) :
    ∀ e ∈ s.history polls calls, I e.before ∧ I e.after := by
  -- `I` is carried from session to session, `P` is given for each event.
  induction calls generalizing s with
  | nil => exact fun e he => nomatch he
  | cons call rest ih =>
    have next := step s call start (permitted _ (List.mem_cons_self ..))
    intro e he
    rcases List.mem_cons.mp he with rfl | he
    · exact ⟨start, next⟩
    · exact ih next (fun e he => permitted e (List.mem_cons_of_mem _ he)) e he

theorem eq_perform_of_mem_history {polls : Nat} {calls : List Operation} {s : Session σ}
    {e : Event σ} (h : e ∈ s.history polls calls) : e = e.before.perform polls e.call := by
  induction calls generalizing s with
  | nil => cases h
  | cons call rest ih =>
    rcases List.mem_cons.mp h with rfl | h
    · rfl
    · exact ih h

end Session

end PioBlock
