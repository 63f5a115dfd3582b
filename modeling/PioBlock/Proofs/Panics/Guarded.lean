import PioBlock.Proofs.Panics.Arithmetic
import PioBlock.Proofs.Refusals

/-! Operations in checked arithmetic. A guarded operation may end in a panic besides all that an
operation ends in. It follows an operation when both make the same accesses on the block at a base
and end alike, and the operation stays with its block and commits no breach. This relation has a
rule for each way to put operations together. A computation in checked arithmetic that comes out
well disappears by one of them. -/

namespace PioBlock

/-- How a guarded operation ends without a result: it was refused or it failed, it still polls, or
it panics. -/
inductive Halt where
  | error (cause : PioError)
  | waiting
  | panic (cause : Panic)
deriving DecidableEq, Repr

/-- The same end of the operation itself, which panics on a breach only. -/
def Halt.ofFailure : Failure → Halt
  | .error cause => .error cause
  | .breach cause => .panic (.breach cause)
  | .waiting => .waiting

abbrev Guarded := ExceptT Halt (StateT Handle Procedure)

theorem Procedure.Meets.bind_congr {α β : Type} {R : Word → Prop}
    {W : Word → MaskedWrite → Prop} {Q : α → Prop} {p : Procedure α}
    {next next' : α → Procedure β} (meets : p.Meets R W Q) (same : ∀ a, Q a → next a = next' a) :
    p >>= next = p >>= next' := by
  induction p with
  | done a => exact same a meets
  | read address k ih =>
    rw [Procedure.read_bind, Procedure.read_bind]
    exact congrArg _ (funext fun answer => ih answer (meets.2 answer))
  | write address change k ih =>
    rw [Procedure.write_bind, Procedure.write_bind]
    exact congrArg _ (funext fun answer => ih answer (meets.2 answer))

namespace Guarded

open Control Operation

variable {α β γ δ : Type} {base : Word} {g : Guarded α} {c : Control α}

def start (g : Guarded α) (h : Handle) : Procedure (Except Halt α × Handle) :=
  StateT.run (ExceptT.run g) h

theorem start_bind (g : Guarded α) (next : α → Guarded β) (h : Handle) :
    (g >>= next).start h = g.start h >>= fun ended =>
      match ended with
      | (.ok a, h') => (next a).start h'
      | (.error e, h') => .done (.error e, h') := by
  simp only [start, ExceptT.run_bind, StateT.run_bind]
  congr 1
  funext ended
  obtain ⟨e | a, h'⟩ := ended <;> rfl

def renamed (ended : Except Failure α × Handle) : Except Halt α × Handle :=
  (ended.1.mapError .ofFailure, ended.2)

/-- A part of an operation that has no arithmetic of its own. -/
def ofControl (c : Control α) : Guarded α :=
  ExceptT.mk fun h => c.start h >>= fun ended => .done (renamed ended)

theorem start_ofControl (c : Control α) (h : Handle) :
    (ofControl c).start h = c.start h >>= fun ended => .done (renamed ended) := rfl

instance : MonadLift Checked Guarded where
  monadLift outcome := ExceptT.mk (pure (outcome.mapError .panic))

def refuse (e : PioError) : Guarded α := throw (.error e)

def ofExcept {ε : Type} (wrap : ε → PioError) : Except ε α → Guarded α
  | .ok a => pure a
  | .error e => refuse (wrap e)

def pollUntil (condition : Guarded Bool) (polls : Nat) : Guarded Unit :=
  poll (throw .waiting) condition polls

def checkMachine (sm : Nat) : Guarded Unit :=
  if sm < 4 then pure () else refuse (.argument (.stateMachine sm))

def checkMachines (mask : Nat) : Guarded Unit :=
  if mask < 16 then pure () else refuse (.argument (.machineSet mask))

def checkBelow32 (reason : Nat → ArgumentError) (n : Nat) : Guarded Unit :=
  if n < 32 then pure () else refuse (.argument (reason n))

/-- The operation stays with its block and does not end in a breach. -/
def Calm (base : Word) (ended : Except Failure α × Handle) : Prop :=
  ended.2.base = base ∧ ∀ b, ended.1 ≠ .error (.breach b)

theorem calm_ok (a : α) {h : Handle} (mapped : h.base = base) :
    Calm base ((.ok a, h) : Except Failure α × Handle) := ⟨mapped, fun _ => by simp⟩

theorem calm_error (e : PioError) {h : Handle} (mapped : h.base = base) :
    Calm base ((.error (.error e), h) : Except Failure α × Handle) := ⟨mapped, fun _ => by simp⟩

theorem Calm.not_panic {ended : Except Failure α × Handle} (calm : Calm base ended)
    (cause : Panic) : (renamed ended).1 ≠ .error (.panic cause) := by
  obtain ⟨e | a, h⟩ := ended
  · intro panics
    cases e with
    | breach b => exact calm.2 b rfl
    | error e => cases panics
    | waiting => cases panics
  · intro panics
    cases panics

/-- On the block at `base`, guarding the operation changes nothing, and it is calm. -/
structure Follows (base : Word) (g : Guarded α) (c : Control α) : Prop where
  same : ∀ h : Handle, h.base = base → g.start h = (ofControl c).start h
  calm : ∀ h : Handle, h.base = base →
    (c.start h).Meets (fun _ => True) (fun _ _ => True) (Calm base)

namespace Follows

theorem pure (a : α) : Follows base (pure a) (pure a) := ⟨fun _ _ => rfl, fun _ => calm_ok a⟩

theorem refuse (e : PioError) : Follows base (refuse e : Guarded α) (Control.refuse e) :=
  ⟨fun _ _ => rfl, fun _ => calm_error e⟩

theorem waiting : Follows base (throw .waiting : Guarded α) (throw .waiting) :=
  ⟨fun _ _ => rfl, fun _ mapped => ⟨mapped, fun _ => by simp⟩⟩

theorem bind {next : α → Guarded β} {next' : α → Control β} (first : Follows base g c)
    (rest : ∀ a, Follows base (next a) (next' a)) : Follows base (g >>= next) (c >>= next') where
  same h mapped := by
    rw [start_bind, first.same h mapped, start_ofControl, start_ofControl, Control.start_bind,
      Procedure.bind_assoc, Procedure.bind_assoc]
    -- `rest` speaks of the block at `base`, and only a calm first part leaves the handle there.
    refine (first.calm h mapped).bind_congr fun ended kept => ?_
    obtain ⟨e | a, h'⟩ := ended
    · rfl
    · exact (rest a).same h' kept.1
  calm h mapped := by
    rw [Control.start_bind]
    refine (first.calm h mapped).bind fun ended kept => ?_
    obtain ⟨e | a, h'⟩ := ended
    · exact ⟨kept.1, fun b same => kept.2 b (congrArg _ (Except.error.inj same))⟩
    · exact (rest a).calm h' kept.1

theorem composes : Composes Guarded Control fun _ => Follows base := ⟨pure, bind⟩

theorem returning {f : α → β} (first : Follows base g c) :
    Follows base (do return f (← g)) (do return f (← c)) := composes.returning f first

theorem and_then {m : Control γ} {next : α → Guarded β} {c : γ → Control α}
    {next' : α → Control β} (first : Follows base g (m >>= c))
    (rest : ∀ a, Follows base (next a) (next' a)) :
    Follows base (g >>= next) (m >>= fun x => c x >>= next') := by
  rw [← bind_assoc]
  exact first.bind rest

theorem and_then_second {m : Control γ} {m' : γ → Control δ} {next : α → Guarded β}
    {c : γ → δ → Control α} {next' : α → Control β}
    (first : Follows base g (m >>= fun x => m' x >>= c x))
    (rest : ∀ a, Follows base (next a) (next' a)) :
    Follows base (g >>= next) (m >>= fun x => m' x >>= fun y => c x y >>= next') := by
  have whole := first.bind rest
  rwa [bind_assoc, funext fun x => bind_assoc (m' x) (c x) next'] at whole

theorem get_bind {next : Handle → Guarded β} {next' : Handle → Control β}
    (rest : ∀ h : Handle, h.base = base → Follows base (next h) (next' h)) :
    Follows base (get >>= next) (get >>= next') where
  same h mapped := by
    rw [start_bind, start_ofControl, Control.start_bind, Control.start_get]
    exact (rest h mapped).same h mapped
  calm h mapped := by
    rw [Control.start_bind, Control.start_get]
    exact (rest h mapped).calm h mapped

theorem set {h : Handle} (mapped : h.base = base) :
    Follows base (set h : Guarded PUnit) (set h) :=
  ⟨fun _ _ => rfl, fun _ _ => calm_ok _ mapped⟩

theorem modify {f : Handle → Handle} (mapped : ∀ h : Handle, h.base = base → (f h).base = base) :
    Follows base (modify f : Guarded PUnit) (modify f) :=
  ⟨fun _ _ => rfl, fun h here => calm_ok _ (mapped h here)⟩

theorem ofExcept {ε : Type} (wrap : ε → PioError) (outcome : Except ε α) :
    Follows base (ofExcept wrap outcome) (Control.ofExcept wrap outcome) := by
  cases outcome with
  | ok a => exact pure a
  | error e => exact refuse _

theorem ofExcept_bind {ε : Type} {wrap : ε → PioError} {outcome : Except ε α}
    {next : α → Guarded β} {next' : α → Control β}
    (rest : ∀ a, outcome = .ok a → Follows base (next a) (next' a)) :
    Follows base (Guarded.ofExcept wrap outcome >>= next)
      (Control.ofExcept wrap outcome >>= next') := by
  cases outcome with
  | ok a => exact rest a rfl
  | error e => exact refuse _

theorem attempt (t : Transaction α) :
    Follows base (ofControl (Control.attempt t)) (Control.attempt t) := by
  refine ⟨fun _ _ => rfl, fun h mapped => ?_⟩
  rw [start_attempt]
  exact t.run.meets_true.bind fun outcome _ => calm_ok outcome mapped

theorem transact (t : Transaction α) :
    Follows base (ofControl (Control.transact t)) (Control.transact t) := by
  refine ⟨fun _ _ => rfl, fun h mapped => ?_⟩
  rw [start_transact]
  refine t.run.meets_true.bind fun outcome _ => ?_
  cases outcome with
  | error e => exact calm_error _ mapped
  | ok a => exact calm_ok a mapped

theorem checked {outcome : Checked α} {a : α} {next : α → Guarded β} {c : Control β}
    (well : outcome = .ok a) (rest : Follows base (next a) c) :
    Follows base (liftM outcome >>= next) c := by
  subst well
  exact rest

theorem checked_return {outcome : Checked α} {a : α} (well : outcome = .ok a) :
    Follows base (liftM outcome) (Pure.pure a) := by
  subst well
  exact pure a

theorem pollUntil {condition : Guarded Bool} {condition' : Control Bool}
    (met : Follows base condition condition') (polls : Nat) :
    Follows base (pollUntil condition polls) (Control.pollUntil condition' polls) :=
  composes.poll waiting met polls

theorem machine {next : Guarded α} {next' : StateMachine → Control α} (n : Nat)
    (rest : ∀ sm : StateMachine, n = sm.val → Follows base next (next' sm)) :
    Follows base (checkMachine n >>= fun _ => next) (machine n >>= next') := by
  by_cases small : n < 4
  · have found := machine_val ⟨n, small⟩
    rw [checkMachine, if_pos small, pure_bind, found, pure_bind]
    exact rest ⟨n, small⟩ rfl
  · rw [checkMachine, if_neg small, machine_of_not_lt small]
    exact refuse _

theorem machines {next : Guarded α} {next' : MachineSet → Control α} (mask : Nat)
    (rest : mask < 16 → Follows base next (next' (BitVec.ofNat 4 mask))) :
    Follows base (checkMachines mask >>= fun _ => next) (machines mask >>= next') := by
  by_cases small : mask < 16
  · rw [checkMachines, if_pos small, pure_bind, machines_of_lt small, pure_bind]
    exact rest small
  · rw [checkMachines, if_neg small, machines_of_not_lt small]
    exact refuse _

theorem below32 {reason : Nat → ArgumentError} {next : Guarded α} {next' : Fin 32 → Control α}
    (n : Nat) (rest : ∀ k : Fin 32, n = k.val → Follows base next (next' k)) :
    Follows base (checkBelow32 reason n >>= fun _ => next) (below32 reason n >>= next') := by
  by_cases small : n < 32
  · rw [checkBelow32, if_pos small, pure_bind, Operation.below32, dif_pos small, pure_bind]
    exact rest ⟨n, small⟩ rfl
  · rw [checkBelow32, if_neg small, Operation.below32, dif_neg small]
    exact refuse _

theorem at_machine {c : StateMachine → Control α} {sm : StateMachine}
    (checked : Follows base g (Operation.machine sm.val >>= c)) : Follows base g (c sm) := by
  rwa [machine_val, pure_bind] at checked

theorem at_single {c : MachineSet → Control α} {sm : StateMachine}
    (checked : Follows base g (Operation.machines (sm.single.setWidth 8).toNat >>= c)) :
    Follows base g (c sm.single) := by
  have set : ∀ sm : StateMachine, (sm.single.setWidth 8).toNat < 16 ∧
      BitVec.ofNat 4 (sm.single.setWidth 8).toNat = sm.single := by decide
  rwa [machines_of_lt (set sm).1, pure_bind, (set sm).2] at checked

theorem single {next : Nat → Guarded α} {next' : MachineSet → Control α}
    (rest : ∀ mask, Follows base (next mask) (Operation.machines mask >>= next')) (n : Nat) :
    Follows base (checkMachine n >>= fun _ => liftM (Checked.single n) >>= fun bit => next bit.toNat)
      (Operation.machine n >>= fun sm => next' sm.single) := by
  refine .machine n ?_
  rintro sm rfl
  exact .checked (Checked.single_eq_ok sm) (.at_single (rest _))

theorem allocate_bind {r : SlotRequest} {checkOnly : Bool} {next : Option Placement → Guarded α}
    {next' : Option Placement → Control α}
    (rest : ∀ found : Option Placement, (∀ f ∈ found, f ∈ r.candidates) →
      Follows base (next found) (next' found)) :
    Follows base (ofControl (allocate r checkOnly) >>= next)
      (allocate r checkOnly >>= next') := by
  have listed (h : Handle) : ∀ f ∈ r.place? h.occupancy, f ∈ r.candidates :=
    fun f found => r.mem_candidates_of_place? found
  -- `bind` would forget where the placement came from.
  constructor
  · intro h mapped
    rw [start_bind, start_ofControl, start_ofControl, Control.start_bind, start_allocate]
    have placed := listed h
    generalize r.place? h.occupancy = found at placed ⊢
    cases found with
    | some f => exact (rest (some f) placed).same _ (by cases checkOnly <;> exact mapped)
    | none =>
      cases checkOnly with
      | true => exact (rest none placed).same h mapped
      | false => rfl
  · intro h mapped
    rw [Control.start_bind, start_allocate]
    have placed := listed h
    generalize r.place? h.occupancy = found at placed ⊢
    cases found with
    | some f => exact (rest (some f) placed).calm _ (by cases checkOnly <;> exact mapped)
    | none =>
      cases checkOnly with
      | true => exact (rest none placed).calm h mapped
      | false => exact calm_error _ mapped

end Follows

theorem follows_allocate (r : SlotRequest) (checkOnly : Bool) :
    Follows base (ofControl (allocate r checkOnly)) (allocate r checkOnly) := by
  have whole : Follows base (ofControl (allocate r checkOnly) >>= pure)
      (allocate r checkOnly >>= pure) := .allocate_bind fun found _ => .pure found
  rwa [bind_pure, bind_pure] at whole

theorem start_tryCatch_of_ok {next : Halt → Guarded α} {h h' : Handle} {a : α}
    (ends : g.start h = .done (.ok a, h')) : (tryCatch g next).start h = .done (.ok a, h') := by
  change StateT.run (ExceptT.run (ExceptT.tryCatch g next)) h = _
  simp only [ExceptT.tryCatch, ExceptT.run_mk, StateT.run_bind]
  have first : StateT.run g h = .done (.ok a, h') := ends
  rw [first]
  rfl

def address (index : Nat) : Guarded Word := do Checked.address (← get).base index

section

variable (fits : Layout.Fits base)

include fits

theorem follows_address {next : Word → Guarded α} {next' : Handle → Control α} (r : PioRegister)
    (rest : ∀ h : Handle, h.base = base → Follows base (next (h.address r)) (next' h)) :
    Follows base (address r.index >>= next) (get >>= next') := by
  rw [address, bind_assoc]
  refine .get_bind fun h mapped => .checked (a := h.address r) ?_ (rest h mapped)
  rw [mapped, Checked.address_eq_ok fits, ← mapped]
  rfl

def access (index : Nat) (kind : RegisterAccess α) : Guarded α := do
  ofControl (Control.transact (kind.transaction (← address index)))

def read (index : Nat) : Guarded Word := access index .read

def write (index : Nat) (value : Word) : Guarded Unit := access index (.write value)

def change (index : Nat) (w : MaskedWrite) : Guarded Unit := access index (.change w)

def writeThrough (a : Alias) (index : Nat) (value : Word) : Guarded Unit :=
  access index (.writeThrough a value)

theorem follows_access (r : PioRegister) (kind : RegisterAccess α) :
    Follows base (access r.index kind) (Control.access r kind) :=
  follows_address fits r fun _ _ => .transact _

end

end Guarded

end PioBlock
