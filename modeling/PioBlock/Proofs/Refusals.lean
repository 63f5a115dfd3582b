import PioBlock.Proofs.Loading
import PioBlock.Proofs.FlatMemory

/-! Refusals come first. An operation checks what it is given before its first access and before it
changes the handle; what goes wrong after that is an access that fails, a status that does not
change, or a breach. So an operation that is refused has done nothing. -/

namespace PioBlock

/-- Whether the failure is an error that no access met. -/
def Failure.isRefusal : Failure → Bool
  | .error cause => !cause.isRegister
  | .breach _ | .waiting => false

theorem Procedure.meets_true {α : Type} (p : Procedure α) :
    p.Meets (fun _ => True) (fun _ _ => True) fun _ => True := by
  induction p with
  | done a => trivial
  | read address k ih => exact ⟨trivial, ih⟩
  | write address change k ih => exact ⟨trivial, ih⟩

namespace Control

variable {α β : Type} {c : Control α} {h : Handle}

def Accepted (ended : Except Failure α × Handle) : Prop :=
  ∀ f, ended.1 = .error f → f.isRefusal = false

/-- However its accesses are answered, the operation is not refused. -/
def Firm (c : Control α) : Prop :=
  ∀ h, (c.start h).Meets (fun _ => True) (fun _ _ => True) Accepted

/-- The handle alone decides the operation, which leaves it as it is. -/
def Decided (c : Control α) : Prop := ∀ h, ∃ outcome, c.start h = .done (outcome, h)

/-- The operation fails at once and with the handle as it is, or it is not refused. -/
def RefusesFirst (c : Control α) : Prop :=
  ∀ h, (∃ f, c.start h = .done (.error f, h)) ∨
    (c.start h).Meets (fun _ => True) (fun _ _ => True) Accepted

theorem accepted_ok (a : α) (h : Handle) : Accepted (.ok a, h) := fun _ failed => nomatch failed

theorem accepted_error {f : Failure} (refusal : f.isRefusal = false) (h : Handle) :
    Accepted ((.error f, h) : Except Failure α × Handle) := by
  intro f' failed
  cases failed
  exact refusal

namespace Firm

theorem pure (a : α) : Firm (pure a : Control α) := fun h => accepted_ok a h

theorem throw {f : Failure} (refusal : f.isRefusal = false) : Firm (throw f : Control α) :=
  fun h => accepted_error refusal h

theorem set (h : Handle) : Firm (set h : Control PUnit) := fun _ => accepted_ok _ h

theorem modify (f : Handle → Handle) : Firm (modify f : Control PUnit) :=
  fun h => accepted_ok _ (f h)

theorem bind {next : α → Control β} (first : Firm c) (rest : ∀ a, Firm (next a)) :
    Firm (c >>= next) := by
  intro h
  rw [start_bind]
  refine (first h).bind fun ended accepted => ?_
  obtain ⟨e | a, h'⟩ := ended
  · exact accepted_error (accepted e rfl) h'
  · exact rest a h'

theorem get_bind {next : Handle → Control β} (rest : ∀ h, Firm (next h)) :
    Firm ((get : Control Handle) >>= next) := by
  intro h
  rw [start_bind, start_get]
  exact rest h h

theorem transact {t : Transaction α} : Firm (transact t) := by
  intro h
  rw [start_transact]
  refine t.run.meets_true.bind fun outcome _ => ?_
  cases outcome with
  | error e => exact accepted_error rfl h
  | ok a => exact accepted_ok a h

theorem attempt (t : Transaction α) : Firm (attempt t) := by
  intro h
  rw [start_attempt]
  exact t.run.meets_true.bind fun outcome _ => accepted_ok outcome h

theorem access {r : PioRegister} {kind : RegisterAccess α} : Firm (access r kind) :=
  get_bind fun _ => transact

theorem rules : Rules (fun _ _ => True) Firm := ⟨pure, bind, throw rfl, fun _ => access⟩

theorem returning {f : α → β} (firm : Firm c) : Firm (do return f (← c)) := rules.returning f firm

theorem acting {c : Control Unit} (firm : Firm c) : Firm (Operation.acting c) :=
  returning firm

theorem refusesFirst (firm : Firm c) : RefusesFirst c := fun h => .inr (firm h)

end Firm

namespace Decided

theorem pure (a : α) : Decided (pure a : Control α) := fun _ => ⟨_, rfl⟩

theorem refuse (e : PioError) : Decided (refuse e : Control α) := fun _ => ⟨_, rfl⟩

theorem ofExcept {ε : Type} (wrap : ε → PioError) (outcome : Except ε α) :
    Decided (ofExcept wrap outcome) := by
  cases outcome with
  | ok a => exact pure a
  | error e => exact refuse _

theorem bind {next : α → Control β} (first : Decided c) (rest : ∀ a, Decided (next a)) :
    Decided (c >>= next) := by
  intro h
  obtain ⟨e | a, decided⟩ := first h
  · exact ⟨.error e, by rw [start_bind, decided, Procedure.done_bind]⟩
  · obtain ⟨outcome, later⟩ := rest a h
    exact ⟨outcome, by rw [start_bind, decided, Procedure.done_bind, ← later]⟩

theorem tryCatch {next : Failure → Control α} (first : Decided c) (rest : ∀ e, Decided (next e)) :
    Decided (tryCatch c next) := by
  intro h
  obtain ⟨e | a, decided⟩ := first h
  · obtain ⟨outcome, later⟩ := rest e h
    exact ⟨outcome, by rw [start_tryCatch, decided, Procedure.done_bind, ← later]⟩
  · exact ⟨.ok a, by rw [start_tryCatch, decided, Procedure.done_bind]⟩

theorem checks : Checks Decided := ⟨pure, fun _ => refuse _⟩

theorem canLoad (p : Program) (offset : Option Nat) : Decided (canLoad p offset) := by
  refine bind (ofExcept _ _) fun r => bind (fun h => ?_) fun _ => pure _
  rw [start_allocate]
  cases r.place? h.occupancy with
  | some found => exact ⟨_, rfl⟩
  | none => exact ⟨_, rfl⟩

theorem refusesFirst (decided : Decided c) : RefusesFirst c := by
  intro h
  obtain ⟨f | a, start⟩ := decided h
  · exact .inl ⟨f, start⟩
  · rw [start]
    exact .inr (accepted_ok a h)

end Decided

namespace RefusesFirst

theorem after {next : α → Control β} (first : Decided c) (rest : ∀ a, RefusesFirst (next a)) :
    RefusesFirst (c >>= next) := by
  intro h
  obtain ⟨f | a, decided⟩ := first h
  · exact .inl ⟨f, by rw [start_bind, decided, Procedure.done_bind]⟩
  · rw [start_bind, decided]
    exact rest a h

theorem before {next : α → Control β} (first : RefusesFirst c) (rest : ∀ a, Firm (next a)) :
    RefusesFirst (c >>= next) := by
  intro h
  obtain ⟨f, failed⟩ | accepts := first h
  · exact .inl ⟨f, by rw [start_bind, failed, Procedure.done_bind]⟩
  · right
    rw [start_bind]
    refine accepts.bind fun ended accepted => ?_
    obtain ⟨e | a, h'⟩ := ended
    · exact accepted_error (accepted e rfl) h'
    · exact rest a h'

theorem acting {c : Control Unit} (first : RefusesFirst c) : RefusesFirst (Operation.acting c) :=
  before first fun _ => .pure _

theorem claim (machines : MachineSet) : RefusesFirst (claim machines) := by
  intro h
  rw [Control.claim, start_bind, start_get, Procedure.done_bind]
  dsimp only
  cases setBits (h.claimed &&& machines) with
  | nil => exact .inr (accepted_ok _ _)
  | cons sm rest => exact .inl ⟨_, rfl⟩

theorem claimUnused (required : Bool) : RefusesFirst (claimUnused required) := by
  intro h
  rw [Control.claimUnused, start_bind, start_get, Procedure.done_bind]
  dsimp only
  cases MachineSet.lowestFree? h.claimed with
  | some sm => exact .inr (accepted_ok _ _)
  | none =>
    cases required with
    | true => exact .inl ⟨_, rfl⟩
    | false => exact .inr (accepted_ok _ _)

theorem allocate (r : SlotRequest) (checkOnly : Bool) : RefusesFirst (allocate r checkOnly) := by
  intro h
  rw [start_allocate]
  cases r.place? h.occupancy with
  | some found => exact .inr (accepted_ok _ _)
  | none =>
    cases checkOnly with
    | true => exact .inr (accepted_ok _ _)
    | false => exact .inl ⟨_, rfl⟩

theorem get_bind {next : Handle → Control β} (rest : ∀ h, RefusesFirst (next h)) :
    RefusesFirst ((get : Control Handle) >>= next) := by
  intro h
  rw [start_bind, start_get]
  exact rest h h

theorem loadInto (base : Word) (p : Program) (offset : Option Nat) :
    RefusesFirst (loadInto base p offset) := by
  refine after (.ofExcept _ _) fun r h => ?_
  rw [start_bind, start_allocate]
  cases r.place? h.occupancy with
  | none => exact .inl ⟨_, rfl⟩
  | some found =>
    refine .inr (Firm.bind (.attempt _) (fun outcome => ?_) _)
    cases outcome with
    | ok _ => exact .pure _
    | error e => exact .bind (.modify _) fun _ => .throw rfl

theorem load (p : Program) (offset : Option Nat) : RefusesFirst (load p offset) :=
  get_bind fun h => loadInto h.base p offset

theorem unload (p : Program) (offset : Nat) : RefusesFirst (unload p offset) := by
  refine after (.ofExcept _ _) fun _ => (Firm.get_bind fun h => ?_).refusesFirst
  dsimp only
  split
  · exact .set _
  · exact .throw rfl

end RefusesFirst

theorem firm_clearIn (base : Word) : Firm (clearIn base) := .bind .transact fun _ => .modify _

theorem firm_initialise (sm : StateMachine) (pc : Slot) (config : Config) :
    Firm (initialise sm pc config) :=
  .bind .access fun _ => .bind (.get_bind fun _ => .transact) fun _ =>
    .bind (Firm.rules.clearQueues sm trivial) fun _ => .bind .access fun _ =>
    .bind .access fun _ => .bind .access fun _ => .access

end Control

namespace Operation

open Control

theorem refusesFirst_perform (polls : Nat) (op : Operation) : RefusesFirst (op.perform polls) := by
  have checks : Checks Decided := Decided.checks
  cases op with
  | configure sm config =>
    exact .after (checks.machine sm) fun _ =>
      (Firm.acting (.get_bind fun _ => .transact)).refusesFirst
  | initialise sm pc config =>
    exact .after (checks.machine sm) fun sm => .after (checks.below32 _ pc) fun pc =>
      (firm_initialise sm pc _).acting.refusesFirst
  | setEnabled sm on | restart sm | restartDivider sm =>
    exact .after (checks.machine sm) fun _ => (Firm.acting .access).refusesFirst
  | setMaskEnabled mask on | restartMask mask | restartDividersMask mask | enableMaskInSync mask =>
    exact .after (checks.machines mask) fun _ => (Firm.acting .access).refusesFirst
  | execute sm i | put sm data =>
    exact .after (checks.machine sm) fun _ => (Firm.acting .access).refusesFirst
  | isStalled sm | programCounter sm | isTxFull sm | isTxEmpty sm | isRxFull sm | isRxEmpty sm
  | txLevel sm | rxLevel sm =>
    exact .after (checks.machine sm) fun _ => (Firm.returning (.returning .access)).refusesFirst
  | take sm => exact .after (checks.machine sm) fun _ => (Firm.returning .access).refusesFirst
  | executeBlocking sm i =>
    exact .after (checks.machine sm) fun sm =>
      (Firm.rules.executeBlocking polls sm i trivial trivial).acting.refusesFirst
  | putBlocking sm data =>
    exact .after (checks.machine sm) fun sm =>
      (Firm.rules.putBlocking polls sm data trivial trivial).acting.refusesFirst
  | takeBlocking sm =>
    exact .after (checks.machine sm) fun sm =>
      (Firm.rules.takeBlocking polls sm trivial trivial).returning.refusesFirst
  | drain sm =>
    exact .after (checks.machine sm) fun sm =>
      (Firm.rules.drain polls sm trivial trivial fun _ => trivial).acting.refusesFirst
  | clearQueues sm =>
    exact .after (checks.machine sm) fun sm =>
      (Firm.rules.clearQueues sm trivial).acting.refusesFirst
  | setPins sm values | setPinsMasked sm values mask | setPindirsMasked sm values mask =>
    exact .after (checks.machine sm) fun _ =>
      (Firm.acting (.get_bind fun _ => .transact)).refusesFirst
  | setConsecutivePindirs sm base count isOut =>
    refine .after (checks.machine sm) fun _ => .after (checks.below32 _ base) fun _ => ?_
    split
    · exact (Decided.refuse _).refusesFirst
    · exact (Firm.acting (.get_bind fun _ => .transact)).refusesFirst
  | adjustWrap sm target wrap | adjustOutPins sm base count | adjustSetPins sm base count
  | adjustClkdiv sm int frac =>
    exact .after (checks.machine sm) fun _ =>
      .acting (.after (.ofExcept _ _) fun _ => Firm.access.refusesFirst)
  | adjustInPins sm base | adjustSidesetPins sm base =>
    exact .after (checks.machine sm) fun _ => .after (checks.below32 _ base) fun _ =>
      (Firm.acting .access).refusesFirst
  | claim sm => exact .after (checks.machine sm) fun _ => .acting (.claim _)
  | claimMask mask => exact .after (checks.machines mask) fun _ => .acting (.claim _)
  | unclaim sm => exact .after (checks.machine sm) fun _ => (Firm.acting (.modify _)).refusesFirst
  | claimUnused required => exact .before (.claimUnused required) fun _ => .pure _
  | isClaimed sm =>
    exact .after (checks.machine sm) fun _ =>
      (Firm.returning (.get_bind fun _ => .pure _)).refusesFirst
  | canLoadAnywhere p =>
    exact .after (.tryCatch (.canLoad p none) fun _ => .pure _) fun _ => (Firm.pure _).refusesFirst
  | canLoad p offset => exact .after (.canLoad p offset) fun _ => (Firm.pure _).refusesFirst
  | load p offset => exact .before (.load p offset) fun _ => .pure _
  | unload p offset => exact .acting (.unload p offset)
  | clear => exact (Firm.acting (.get_bind fun h => firm_clearIn h.base)).refusesFirst
  | allocate r checkOnly => exact .before (.allocate r checkOnly) fun _ => .pure _
  | loadInto base p offset => exact .before (.loadInto base p offset) fun _ => .pure _
  | clearIn base => exact (firm_clearIn base).acting.refusesFirst

/-- An operation that is refused has done nothing: no access was made, the registers are as they
were, and so are the slots taken and the state machines claimed. -/
theorem refused_does_nothing {σ : Type} [RegisterSpace σ] (polls : Nat) (op : Operation) (h : Handle)
    (s : σ) {cause : PioError} (register : cause.isRegister = false)
    (refused : (((op.perform polls).start h).run s).value.1 = .error (.error cause)) :
    ((op.perform polls).start h).run s = ⟨(.error (.error cause), h), s, []⟩ := by
  obtain ⟨f, failed⟩ | accepts := refusesFirst_perform polls op h
  · rw [failed] at refused ⊢
    cases refused
    rfl
  · have accepted := accepts.run_value s _ refused
    rw [Failure.isRefusal, register] at accepted
    cases accepted

theorem refused_does_nothing_claim :
    (((claimMask 3).perform 1).start ⟨0, 0x50200000, 0, 2⟩).run Dispatch.twoBlocks =
      ⟨(.error (.error (.claimConflict [1])), ⟨0, 0x50200000, 0, 2⟩), Dispatch.twoBlocks, []⟩ :=
  refused_does_nothing 1 (claimMask 3) ⟨0, 0x50200000, 0, 2⟩ Dispatch.twoBlocks rfl rfl

end Operation

end PioBlock
