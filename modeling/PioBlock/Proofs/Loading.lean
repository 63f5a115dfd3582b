import PioBlock.Proofs.Scope
import PioBlock.Proofs.Slots

/-! What loading, unloading and clearing come to. Each of them is a decision on the occupancy of
the handle around at most one transaction, and its equation says which: a refused request makes
no access, and a transaction that fails gives back just the slots that were taken for it, so that
the handle is the one from before. -/

namespace PioBlock

namespace Program

/-- The program asked for at this offset is placed as `found` when the slots of `taken` are. -/
def PlacedAs (p : Program) (offset : Option Nat) (taken : Word) (found : Placement) : Prop :=
  ∃ r, p.request offset = .ok r ∧ r.place? taken = some found

/-- The program may be loaded at this offset. -/
def CanStandAt (p : Program) (offset : Nat) : Prop :=
  offset < 32 ∧ ∀ origin, p.origin = some origin → origin.val = offset

theorem request_of_canStandAt {p : Program} {offset : Nat} (stand : p.CanStandAt offset) :
    p.request (some offset) = .ok ⟨p.slotsAt offset, some offset⟩ := by
  obtain ⟨lt, origin⟩ := stand
  unfold request
  cases fixed : p.origin with
  | none => simp [lt]
  | some slot =>
    have at_origin := origin slot fixed
    simp [at_origin, allocationMask, slotsAt, start, fixed]

theorem PlacedAs.of_isFree {p : Program} {offset : Nat} {taken : Word}
    (stand : p.CanStandAt offset) (free : isFree taken (p.slotsAt offset) = true) :
    p.PlacedAs (some offset) taken ⟨offset, p.slotsAt offset⟩ :=
  ⟨_, request_of_canStandAt stand, by simp [SlotRequest.place?, SlotRequest.candidates, free]⟩

theorem PlacedAs.slots_eq {p : Program} {offset : Option Nat} {taken : Word} {found : Placement}
    (placed : p.PlacedAs offset taken found) : found.slots = p.slotsAt found.offset := by
  obtain ⟨r, asked, place⟩ := placed
  exact slots_of_mem_candidates asked (r.mem_candidates_of_place? place)

theorem PlacedAs.isFree {p : Program} {offset : Option Nat} {taken : Word} {found : Placement}
    (placed : p.PlacedAs offset taken found) : isFree taken found.slots = true := by
  obtain ⟨r, asked, place⟩ := placed
  exact SlotRequest.isFree_of_place? place

theorem PlacedAs.canStandAt {p : Program} {offset : Option Nat} {taken : Word}
    {found : Placement} (placed : p.PlacedAs offset taken found) :
    p.CanStandAt found.offset := by
  obtain ⟨r, asked, place⟩ := placed
  have listed := SlotRequest.mem_candidates_of_place? place
  unfold request at asked
  split at asked
  · next origin n ho =>
    split at asked <;> cases asked
    simp only [SlotRequest.candidates, List.mem_singleton] at listed
    subst listed
    exact ⟨origin.isLt, by simp [ho]⟩
  · next origin ho =>
    cases asked
    simp only [SlotRequest.candidates, List.mem_singleton] at listed
    subst listed
    exact ⟨origin.isLt, by simp [ho]⟩
  · next n ho =>
    split at asked <;> cases asked
    simp only [SlotRequest.candidates, List.mem_singleton] at listed
    subst listed
    exact ⟨by assumption, by simp [ho]⟩
  · next ho =>
    cases asked
    simp only [SlotRequest.candidates, List.mem_map, List.mem_range] at listed
    obtain ⟨n, lt, rfl⟩ := listed
    exact ⟨lt, by simp [ho]⟩

/-- An offset that is asked for is the offset that is found. -/
theorem PlacedAs.offset_eq {p : Program} {offset : Nat} {taken : Word} {found : Placement}
    (placed : p.PlacedAs (some offset) taken found) : found.offset = offset := by
  obtain ⟨r, asked, place⟩ := placed
  have kept : r.offset = some offset := by
    unfold request at asked
    cases fixed : p.origin with
    | some origin =>
      simp only [fixed] at asked
      split at asked <;> cases asked
      exact congrArg some ‹origin.val = offset›
    | none =>
      simp only [fixed] at asked
      split at asked <;> cases asked
      rfl
  have listed := SlotRequest.mem_candidates_of_place? place
  simp only [SlotRequest.candidates, kept, List.mem_singleton] at listed
  rw [listed]

end Program

namespace Control

theorem start_allocate (r : SlotRequest) (checkOnly : Bool) (h : Handle) :
    (allocate r checkOnly).start h =
      match r.place? h.occupancy with
      | some found => .done (.ok (some found),
          if checkOnly then h else { h with occupancy := h.occupancy ||| found.slots })
      | none => .done (if checkOnly then .ok none else .error (.error .noSpace), h) := by
  rw [allocate, start_bind, start_get]
  dsimp only [Procedure.done_bind]
  cases r.place? h.occupancy <;> cases checkOnly <;> rfl

theorem start_canLoad (p : Program) (offset : Option Nat) (h : Handle) :
    (canLoad p offset).start h =
      match p.request offset with
      | .error e => .done (.error (.error (.ofRequestFault e)), h)
      | .ok r => .done (.ok (r.place? h.occupancy).isSome, h) := by
  rw [canLoad, start_bind]
  cases p.request offset with
  | error e => rfl
  | ok r =>
    simp only [ofExcept, start_pure, Procedure.done_bind]
    rw [start_bind, start_allocate]
    cases r.place? h.occupancy <;> rfl

theorem start_canLoad_none (p : Program) (h : Handle) :
    ∃ b, (canLoad p none).start h = .done (.ok b, h) := by
  obtain ⟨r, asked⟩ : ∃ r, p.request none = .ok r := by
    cases fixed : p.origin <;> simp [Program.request, fixed]
  exact ⟨_, by rw [start_canLoad, asked]⟩

theorem start_loadInto (base : Word) (p : Program) (offset : Option Nat) (h : Handle) :
    (loadInto base p offset).start h =
      match p.request offset with
      | .error e => .done (.error (.error (.ofRequestFault e)), h)
      | .ok r =>
        match r.place? h.occupancy with
        | none => .done (.error (.error .noSpace), h)
        | some found =>
          (Transaction.writeAll (loadWrites base p found.offset)).run >>= fun outcome =>
            match outcome with
            | .ok () =>
              .done (.ok found.offset, { h with occupancy := h.occupancy ||| found.slots })
            | .error e => .done (.error (.error (.register e)), h) := by
  rw [loadInto, start_bind]
  cases asked : p.request offset with
  | error e => rfl
  | ok r =>
    simp only [ofExcept, start_pure, Procedure.done_bind]
    rw [start_bind, start_allocate]
    cases place : r.place? h.occupancy with
    | none => rfl
    | some found =>
      have placed : p.PlacedAs offset h.occupancy found := ⟨r, asked, place⟩
      simp only [Procedure.done_bind, Bool.false_eq_true, if_false]
      rw [start_bind, start_attempt, Procedure.bind_assoc]
      congr 1
      funext outcome
      cases outcome with
      | ok _ => rfl
      | error e =>
        have back := or_and_not_cancel placed.isFree
        rw [placed.slots_eq] at back
        simp only [Procedure.done_bind]
        rw [start_bind]
        change Procedure.done (Except.error (Failure.error (PioError.register e)), Handle.mk ..) = _
        rw [placed.slots_eq, back]

theorem start_load (p : Program) (offset : Option Nat) (h : Handle) :
    (load p offset).start h = (loadInto h.base p offset).start h := by
  rw [load, start_bind, start_get]
  rfl

theorem start_unload (p : Program) (offset : Nat) (h : Handle) :
    (unload p offset).start h =
      match p.request (some offset) with
      | .error e => .done (.error (.error (.ofRequestFault e)), h)
      | .ok _ =>
        if h.occupancy &&& p.slotsAt offset = p.slotsAt offset then
          .done (.ok (), { h with occupancy := h.occupancy &&& ~~~p.slotsAt offset })
        else .done (.error (.breach ⟨p.slotsAt offset, offset, h.occupancy⟩), h) := by
  rw [unload, start_bind]
  cases asked : p.request (some offset) with
  | error e => rfl
  | ok r =>
    simp only [ofExcept, start_pure, Procedure.done_bind]
    rw [start_bind, start_get]
    simp only [Procedure.done_bind]
    split <;> rfl

theorem start_clear (h : Handle) :
    clear.start h = (Transaction.writeAll (clearWrites h.base)).run >>= fun outcome =>
      match outcome with
      | .ok () => .done (.ok (), { h with occupancy := 0 })
      | .error e => .done (.error (.error (.register e)), h) := by
  rw [clear, start_bind, start_get]
  dsimp only [Procedure.done_bind]
  rw [clearIn, start_bind, start_transact, Procedure.bind_assoc]
  congr 1
  funext outcome
  cases outcome <;> rfl

end Control

end PioBlock
