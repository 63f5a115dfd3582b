import PioBlock.Operation

/-! How operations are put together. What is started by a compound operation is read off its parts,
a relation between operations that `>>=` keeps is kept by a loop, and a property of operations that
has the rules for the parts has them for the operations made of single accesses. -/

namespace PioBlock

/-- The relation holds of what is put together when it holds of the parts. -/
structure Composes (m n : Type → Type) [Monad m] [Monad n]
    (R : (α : Type) → m α → n α → Prop) : Prop where
  pure {α : Type} (a : α) : R α (pure a) (pure a)
  bind {α β : Type} {x : m α} {y : n α} {next : α → m β} {next' : α → n β} (first : R α x y)
    (rest : ∀ a, R β (next a) (next' a)) : R β (x >>= next) (y >>= next')

namespace Composes

variable {α β : Type} {m n : Type → Type} [Monad m] [Monad n]
  {R : (α : Type) → m α → n α → Prop}

theorem returning (composes : Composes m n R) (f : α → β) {x : m α} {y : n α} (first : R α x y) :
    R β (do return f (← x)) (do return f (← y)) :=
  composes.bind first fun a => composes.pure (f a)

theorem poll (composes : Composes m n R) {s : m Unit} {t : n Unit} {x : m Bool} {y : n Bool}
    (stops : R Unit s t) (met : R Bool x y) (polls : Nat) :
    R Unit (poll s x polls) (poll t y polls) := by
  induction polls with
  | zero => exact stops
  | succ polls ih =>
    refine composes.bind met fun holds => ?_
    cases holds with
    | true => exact composes.pure ()
    | false => exact ih

end Composes

namespace Control

variable {α β : Type}

theorem start_pure (a : α) (h : Handle) : (pure a : Control α).start h = .done (.ok a, h) := rfl

theorem start_get (h : Handle) : (get : Control Handle).start h = .done (.ok h, h) := rfl

theorem start_bind (c : Control α) (next : α → Control β) (h : Handle) :
    (c >>= next).start h = c.start h >>= fun ended =>
      match ended with
      | (.ok a, h') => (next a).start h'
      | (.error e, h') => .done (.error e, h') := by
  simp only [start, ExceptT.run_bind, StateT.run_bind]
  congr 1
  funext ended
  obtain ⟨e | a, h'⟩ := ended <;> rfl

theorem start_returning (f : α → β) (c : Control α) (h : Handle) :
    (do return f (← c) : Control β).start h =
      c.start h >>= fun ended => .done (ended.1.map f, ended.2) := by
  rw [start_bind]
  congr 1
  funext ended
  obtain ⟨e | a, h'⟩ := ended <;> rfl

theorem start_tryCatch (c : Control α) (next : Failure → Control α) (h : Handle) :
    (tryCatch c next).start h = c.start h >>= fun ended =>
      match ended with
      | (.ok a, h') => .done (.ok a, h')
      | (.error e, h') => (next e).start h' := by
  change StateT.run (ExceptT.run (ExceptT.tryCatch c next)) h = _
  simp only [start, ExceptT.tryCatch, ExceptT.run_mk, StateT.run_bind]
  congr 1
  funext ended
  obtain ⟨e | a, h'⟩ := ended <;> rfl

theorem start_attempt (t : Transaction α) (h : Handle) :
    (attempt t).start h = t.run >>= fun outcome => .done (.ok outcome, h) := by
  simp only [attempt, start, ExceptT.run_lift, StateT.run_bind, StateT.run_lift,
    map_eq_pure_bind, Procedure.bind_assoc]
  rfl

theorem start_access (r : PioRegister) (kind : RegisterAccess α) (h : Handle) :
    (access r kind).start h = (transact (kind.transaction (h.address r))).start h := by
  rw [access, start_bind, start_get, Procedure.done_bind]

/-- The rules by which a property of operations follows from the accesses that they make. -/
structure Rules (allowed : {α : Type} → PioRegister → RegisterAccess α → Prop)
    (P : {α : Type} → Control α → Prop) : Prop where
  pure {α : Type} (a : α) : P (pure a : Control α)
  bind {α β : Type} {c : Control α} {next : α → Control β} (first : P c)
    (rest : ∀ a, P (next a)) : P (c >>= next)
  waiting : P (throw .waiting : Control Unit)
  access {α : Type} {r : PioRegister} {kind : RegisterAccess α} (ok : allowed r kind) :
    P (access r kind)

namespace Rules

variable {allowed : {α : Type} → PioRegister → RegisterAccess α → Prop}
  {P : {α : Type} → Control α → Prop}

theorem returning (rules : Rules allowed P) (f : α → β) {c : Control α} (first : P c) :
    P (do return f (← c)) :=
  rules.bind first fun a => rules.pure (f a)

theorem reading (rules : Rules allowed P) {r : PioRegister} (f : Word → α)
    (reads : allowed r .read) : P (do return f (← readRegister r)) :=
  rules.returning f (rules.access reads)

/-- A property is a relation that looks at one side only. -/
theorem composes (rules : Rules allowed P) : Composes Control Control fun _ c _ => P c :=
  ⟨rules.pure, rules.bind⟩

theorem pollUntil (rules : Rules allowed P) {condition : Control Bool} (met : P condition)
    (polls : Nat) : P (pollUntil condition polls) :=
  rules.composes.poll (t := throw .waiting) (y := condition) rules.waiting met polls

theorem executeBlocking (rules : Rules allowed P) (polls : Nat) (sm : StateMachine)
    (i : Instruction) (executes : allowed (.machine sm .instr) (.write (i.setWidth 32)))
    (reads : allowed (.machine sm .execctrl) .read) : P (executeBlocking polls sm i) :=
  rules.bind (rules.access executes) fun _ =>
    rules.pollUntil (rules.returning _ (rules.reading _ reads)) polls

theorem clearQueues (rules : Rules allowed P) (sm : StateMachine)
    (toggles : allowed (.machine sm .shiftctrl) (.writeThrough .toggle Layout.fjoinRx.mask)) :
    P (clearQueues sm) :=
  rules.bind (rules.access toggles) fun _ => rules.access toggles

theorem putBlocking (rules : Rules allowed P) (polls : Nat) (sm : StateMachine) (data : Word)
    (reads : allowed .fstat .read) (puts : allowed (.txf sm) (.write data)) :
    P (putBlocking polls sm data) :=
  rules.bind (rules.pollUntil (rules.returning _ (rules.reading _ reads)) polls) fun _ =>
    rules.access puts

theorem takeBlocking (rules : Rules allowed P) (polls : Nat) (sm : StateMachine)
    (reads : allowed .fstat .read) (takes : allowed (.rxf sm) .read) :
    P (takeBlocking polls sm) :=
  rules.bind (rules.pollUntil (rules.returning _ (rules.reading _ reads)) polls) fun _ =>
    rules.access takes

theorem drain (rules : Rules allowed P) (polls : Nat) (sm : StateMachine)
    (mode : allowed (.machine sm .shiftctrl) .read) (reads : allowed .fstat .read)
    (executes : ∀ shiftctrl, allowed (.machine sm .instr)
      (.write ((drainInstruction shiftctrl).setWidth 32))) : P (drain polls sm) := by
  refine rules.bind (rules.access mode) fun shiftctrl => rules.pollUntil ?_ polls
  refine rules.bind (rules.reading _ reads) fun empty => ?_
  cases empty with
  | true => exact rules.pure true
  | false => exact rules.bind (rules.access (executes shiftctrl)) fun _ => rules.pure false

end Rules

/-- The rules by which a property holds of the checks of the numbers that a caller gives. -/
structure Checks (P : {α : Type} → Control α → Prop) : Prop where
  pure {α : Type} (a : α) : P (pure a : Control α)
  refuse {α : Type} (cause : ArgumentError) : P (refuse (.argument cause) : Control α)

namespace Checks

variable {P : {α : Type} → Control α → Prop}

theorem machine (checks : Checks P) (sm : Nat) : P (Operation.machine sm) := by
  unfold Operation.machine
  split
  · exact checks.pure _
  · exact checks.refuse _

theorem machines (checks : Checks P) (mask : Nat) : P (Operation.machines mask) := by
  unfold Operation.machines
  split
  · exact checks.pure _
  · exact checks.refuse _

theorem below32 (checks : Checks P) (reason : Nat → ArgumentError) (n : Nat) :
    P (Operation.below32 reason n) := by
  unfold Operation.below32
  split
  · exact checks.pure _
  · exact checks.refuse _

end Checks

end Control

end PioBlock
