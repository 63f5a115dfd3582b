import PioBlock.Proofs.Footprint

/-! Accesses that fail. A list of writes is made in order up to the first one that fails, and its
outcome is the error that this one met. An operation gives up at a fault when nothing comes after an
access that fails but the end, with the error of that access; this is read off the tree of accesses
and composes along `>>=`. What holds between the accesses is said of the moments of a run, the
spaces that it goes through. -/

namespace PioBlock

namespace Access

def firstError? (trace : List Access) : Option RegisterError := trace.findSome? error?

/-- How a transaction ends that fails with its first failing access and does nothing else. -/
def ended (trace : List Access) : Except RegisterError Unit :=
  match firstError? trace with
  | none => .ok ()
  | some e => .error e

def verdict (trace : List Access) : Except Failure Answer :=
  match firstError? trace with
  | none => .ok .done
  | some e => .error (.error (.register e))

theorem verdict_eq (trace : List Access) :
    verdict trace = ((ended trace).mapError (.error ∘ .register)).map fun _ => .done := by
  unfold verdict ended
  cases firstError? trace <;> rfl

theorem ended_read_cons (address w : Word) (rest : List Access) :
    ended (.read address (.ok w) :: rest) = ended rest := rfl

theorem ended_append (earlier later : List Access) :
    ended (earlier ++ later) = (ended earlier).bind fun _ => ended later := by
  unfold ended
  rw [firstError?, List.findSome?_append]
  change (match (firstError? earlier).or (firstError? later) with | none => _ | some e => _) = _
  cases firstError? earlier <;> rfl

theorem ended_of_faultless {trace : List Access}
    (faultless : ∀ access ∈ trace, access.error? = none) : ended trace = .ok () := by
  rw [ended, firstError?, List.findSome?_eq_none_iff.mpr faultless]

/-- The accesses are these writes in order, up to the first that fails. -/
inductive Attempts : List (Word × Word) → List Access → Prop
  | done : Attempts [] []
  | granted {w : Word × Word} {rest : List (Word × Word)} {trace : List Access} :
      Attempts rest trace →
        Attempts (w :: rest) (.write w.1 (.ofAddress w.1 w.2) (.ok ()) :: trace)
  | refused {w : Word × Word} {rest : List (Word × Word)} (e : RegisterError) :
      Attempts (w :: rest) [.write w.1 (.ofAddress w.1 w.2) (.error e)]

end Access

namespace Procedure

variable {α β σ : Type} [RegisterSpace σ]

/-- The spaces that a run goes through, one after each access. -/
def moments : Procedure α → σ → List σ
  | .done _, _ => []
  | .read address k, s =>
    let answered := RegisterSpace.read address s
    answered.2 :: (k answered.1).moments answered.2
  | .write address change k, s =>
    let answered := RegisterSpace.write address change s
    answered.2 :: (k answered.1).moments answered.2

theorem moments_bind (p : Procedure α) (f : α → Procedure β) (s : σ) :
    (p >>= f).moments s = p.moments s ++ (f (p.run s).value).moments (p.run s).space := by
  induction p generalizing s with
  | done a => rfl
  | read address k ih => simp only [read_bind, moments, run, ih, List.cons_append]
  | write address change k ih => simp only [write_bind, moments, run, ih, List.cons_append]

theorem space_mem_cons_moments (p : Procedure α) (s : σ) :
    (p.run s).space ∈ s :: p.moments s := by
  induction p generalizing s with
  | done a => exact List.mem_cons_self ..
  | read address k ih => exact List.mem_cons_of_mem _ (ih _ _)
  | write address change k ih => exact List.mem_cons_of_mem _ (ih _ _)

theorem space_mem_moments {p : Procedure α} {s : σ} (reached : (p.run s).trace ≠ []) :
    (p.run s).space ∈ p.moments s := by
  cases p with
  | done a => exact absurd rfl reached
  | read address k => exact space_mem_cons_moments _ _
  | write address change k => exact space_mem_cons_moments _ _

/-- After an access that fails there is only the end, which `tells` of the error. -/
def GivesUp (tells : RegisterError → α → Prop) : Procedure α → Prop
  | .done _ => True
  | .read _ next =>
    (∀ w, (next (.ok w)).GivesUp tells) ∧ ∀ e, ∃ a, next (.error e) = .done a ∧ tells e a
  | .write _ _ next =>
    (next (.ok ())).GivesUp tells ∧ ∀ e, ∃ a, next (.error e) = .done a ∧ tells e a

namespace GivesUp

variable {tells : RegisterError → α → Prop} {tells' : RegisterError → β → Prop}

theorem bind {p : Procedure α} {next : α → Procedure β} (first : p.GivesUp tells)
    (rest : ∀ a, (next a).GivesUp tells')
    (ends : ∀ e a, tells e a → ∃ b, next a = .done b ∧ tells' e b) :
    (p >>= next).GivesUp tells' := by
  induction p with
  | done a => exact rest a
  | read address k ih =>
    refine ⟨fun w => ih _ (first.1 w), fun e => ?_⟩
    obtain ⟨a, stops, told⟩ := first.2 e
    have ended := ends e a told
    rwa [← done_bind a next, ← stops] at ended
  | write address change k ih =>
    refine ⟨ih _ first.1, fun e => ?_⟩
    obtain ⟨a, stops, told⟩ := first.2 e
    have ended := ends e a told
    rwa [← done_bind a next, ← stops] at ended

/-- In a run only the last access can be one that failed. -/
theorem run {p : Procedure α} (gives_up : p.GivesUp tells) {s : σ} {earlier later : List Access}
    {access : Access} {e : RegisterError} (split : (p.run s).trace = earlier ++ access :: later)
    (failed : access.error? = some e) : later = [] ∧ tells e (p.run s).value := by
  induction p generalizing s earlier with
  | done a => exact absurd split.symm (List.append_ne_nil_of_right_ne_nil _ (List.cons_ne_nil _ _))
  | read address k ih =>
    rw [Procedure.run] at split ⊢
    generalize RegisterSpace.read address s = answered at split ⊢
    obtain ⟨e' | w, t⟩ := answered
    · obtain ⟨a, stops, told⟩ := gives_up.2 e'
      simp only [stops, run_done] at split ⊢
      obtain ⟨rfl, only⟩ | ⟨-, none⟩ := List.append_eq_singleton_iff.mp split.symm
      · cases only
        cases failed
        exact ⟨rfl, told⟩
      · cases none
    · cases earlier with
      | nil =>
        cases (List.cons.inj split).1
        cases failed
      | cons head rest => exact ih _ (gives_up.1 w) (List.cons.inj split).2
  | write address change k ih =>
    rw [Procedure.run] at split ⊢
    generalize RegisterSpace.write address change s = answered at split ⊢
    obtain ⟨e' | _, t⟩ := answered
    · obtain ⟨a, stops, told⟩ := gives_up.2 e'
      simp only [stops, run_done] at split ⊢
      obtain ⟨rfl, only⟩ | ⟨-, none⟩ := List.append_eq_singleton_iff.mp split.symm
      · cases only
        cases failed
        exact ⟨rfl, told⟩
      · cases none
    · cases earlier with
      | nil =>
        cases (List.cons.inj split).1
        cases failed
      | cons head rest => exact ih _ gives_up.1 (List.cons.inj split).2

end GivesUp

end Procedure

namespace Transaction

variable {σ : Type} [RegisterSpace σ]

theorem writeAll_singleton (address value : Word) :
    writeAll [(address, value)] = write address value := by
  rw [writeAll, writeAll]
  exact bind_pure_unit

theorem writeAll_append (earlier later : List (Word × Word)) :
    writeAll (earlier ++ later) = writeAll earlier >>= fun _ => writeAll later := by
  induction earlier with
  | nil => rw [writeAll, pure_bind, List.nil_append]
  | cons head rest ih => rw [List.cons_append, writeAll, writeAll, ih, bind_assoc]

/-- Writing a list of words makes the writes up to the first that fails, and fails as that one. -/
theorem attempts_writeAll (writes : List (Word × Word)) (s : σ) :
    Access.Attempts writes ((writeAll writes).run.run s).trace ∧
      ((writeAll writes).run.run s).value = Access.ended ((writeAll writes).run.run s).trace := by
  induction writes generalizing s with
  | nil => exact ⟨.done, rfl⟩
  | cons head rest ih =>
    obtain ⟨address, value⟩ := head
    rw [run_writeAll_cons, Procedure.run]
    generalize RegisterSpace.write _ _ s = answered
    obtain ⟨e | _, t⟩ := answered
    · exact ⟨.refused e, rfl⟩
    · exact ⟨.granted (ih t).1, (ih t).2⟩

end Transaction

namespace Control

variable {α β : Type} {c : Control α}

section OneTransaction

variable {σ : Type} [RegisterSpace σ] {c : Control Unit} {t : Transaction Unit} {h : Handle}

theorem start_acting (makes : c.start h = (transact t).start h) :
    (Operation.acting c).start h = t.run >>= fun outcome =>
      .done ((outcome.mapError (.error ∘ .register)).map fun _ => .done, h) := by
  have started : (Operation.acting c).start h = _ := start_returning (fun _ => Answer.done) c h
  rw [started, makes, start_transact, Procedure.bind_assoc]
  rfl

theorem run_acting (makes : c.start h = (transact t).start h) (s : σ) :
    ((Operation.acting c).start h).run s =
      ⟨(((t.run.run s).value.mapError (.error ∘ .register)).map fun _ => .done, h),
        (t.run.run s).space, (t.run.run s).trace⟩ := by
  rw [start_acting makes, Procedure.run_bind]
  simp

theorem moments_acting (makes : c.start h = (transact t).start h) (s : σ) :
    ((Operation.acting c).start h).moments s = t.run.moments s := by
  rw [start_acting makes, Procedure.moments_bind, Procedure.moments, List.append_nil]

end OneTransaction

/-- After an access that fails the operation ends at once, with the error of that access. -/
def GivesUp (c : Control α) : Prop :=
  ∀ h, (c.start h).GivesUp fun e ended => ended.1 = .error (.error (.register e))

namespace GivesUp

theorem pure (a : α) : GivesUp (pure a : Control α) := fun _ => trivial

theorem throw (f : Failure) : GivesUp (throw f : Control α) := fun _ => trivial

theorem bind {next : α → Control β} (first : GivesUp c) (rest : ∀ a, GivesUp (next a)) :
    GivesUp (c >>= next) := by
  intro h
  rw [start_bind]
  refine (first h).bind (fun ended => ?_) fun e ended told => ?_
  · obtain ⟨f | a, h'⟩ := ended
    · trivial
    · exact rest a h'
  · obtain ⟨_, h'⟩ := ended
    cases told
    exact ⟨_, rfl, rfl⟩

theorem access (r : PioRegister) (kind : RegisterAccess α) : GivesUp (access r kind) := by
  intro h
  rw [start_access, start_transact]
  cases kind with
  | read => exact ⟨fun _ => trivial, fun _ => ⟨_, rfl, rfl⟩⟩
  | write | change | writeThrough => exact ⟨trivial, fun _ => ⟨_, rfl, rfl⟩⟩

theorem rules : Rules (fun _ _ => True) GivesUp := ⟨pure, bind, throw _, fun _ => access _ _⟩

end GivesUp

end Control

end PioBlock
