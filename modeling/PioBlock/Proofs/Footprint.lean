import PioBlock.Proofs.Composition

/-! Which accesses can be reached. A procedure is a tree of accesses, so what all its runs do is
read off the tree, without a register space at hand: `Procedure.Meets` bounds the addresses read,
the writes made and the values at the ends, and composes along `>>=`. `Control.Respects` says the
same of an operation through a handle, for as long as the handle stays within an invariant. -/

namespace PioBlock

namespace Procedure

variable {α β σ : Type} {R R' : Word → Prop} {W W' : Word → MaskedWrite → Prop}

/-- Whatever the answers are, reads stay within `R`, writes within `W`, and the value within `Q`. -/
def Meets (R : Word → Prop) (W : Word → MaskedWrite → Prop) (Q : α → Prop) : Procedure α → Prop
  | .done a => Q a
  | .read address next => R address ∧ ∀ answer, (next answer).Meets R W Q
  | .write address change next => W address change ∧ ∀ answer, (next answer).Meets R W Q

theorem Meets.bind {p : Procedure α} {next : α → Procedure β} {Q : α → Prop} {Q' : β → Prop}
    (first : p.Meets R W Q) (rest : ∀ a, Q a → (next a).Meets R W Q') :
    (p >>= next).Meets R W Q' := by
  induction p with
  | done a => exact rest a first
  | read address k ih => exact ⟨first.1, fun answer => ih answer (first.2 answer)⟩
  | write address change k ih => exact ⟨first.1, fun answer => ih answer (first.2 answer)⟩

theorem Meets.run_value [RegisterSpace σ] {p : Procedure α} {Q : α → Prop}
    (meets : p.Meets R W Q) (s : σ) : Q (p.run s).value := by
  induction p generalizing s with
  | done a => exact meets
  | read address k ih => exact ih _ (meets.2 _) _
  | write address change k ih => exact ih _ (meets.2 _) _

theorem Meets.run_space [RegisterSpace σ] {p : Procedure α} {Q : α → Prop} {I : σ → Prop}
    (meets : p.Meets R W Q) (reads : ∀ a s, R a → I s → I (RegisterSpace.read a s).2)
    (writes : ∀ a w s, W a w → I s → I (RegisterSpace.write a w s).2) {s : σ} (start : I s) :
    I (p.run s).space := by
  induction p generalizing s with
  | done a => exact start
  | read address k ih => exact ih _ (meets.2 _) (reads _ _ meets.1 start)
  | write address change k ih => exact ih _ (meets.2 _) (writes _ _ _ meets.1 start)

end Procedure

namespace Transaction

variable {α β : Type} {R : Word → Prop} {W : Word → MaskedWrite → Prop}

/-- The accesses of the transaction are within the bounds. -/
def Respects (R : Word → Prop) (W : Word → MaskedWrite → Prop) (t : Transaction α) : Prop :=
  t.run.Meets R W fun _ => True

theorem Respects.bind {t : Transaction α} {next : α → Transaction β} (first : t.Respects R W)
    (rest : ∀ a, (next a).Respects R W) : (t >>= next).Respects R W := by
  refine Procedure.Meets.bind first fun outcome _ => ?_
  cases outcome with
  | error e => trivial
  | ok a => exact rest a

theorem Respects.outcome {t : Transaction α} (first : t.Respects R W) :
    Respects R W (ExceptT.lift t.run) := by
  refine Procedure.Meets.bind first fun _ _ => trivial

theorem respects_write {address value : Word} (allowed : W address (.ofAddress address value)) :
    (write address value).Respects R W :=
  ⟨allowed, fun _ => trivial⟩

theorem run_writeAll_cons (address value : Word) (rest : List (Word × Word)) :
    (writeAll ((address, value) :: rest)).run =
      .write address (.ofAddress address value) fun answer =>
        match answer with
        | .ok () => (writeAll rest).run
        | .error e => .done (.error e) := by
  rw [writeAll, ExceptT.run_bind]
  change Procedure.write _ _ _ = _
  congr 1
  funext answer
  cases answer <;> rfl

theorem respects_writeAll {writes : List (Word × Word)}
    (allowed : ∀ w ∈ writes, W w.1 (.ofAddress w.1 w.2)) : (writeAll writes).Respects R W := by
  induction writes with
  | nil => trivial
  | cons head rest ih =>
    exact (respects_write (allowed head (List.mem_cons_self ..))).bind fun _ =>
      ih fun w hw => allowed w (List.mem_cons_of_mem _ hw)

end Transaction

namespace Control

variable {α β : Type} {I : Handle → Prop} {R : Word → Prop} {W : Word → MaskedWrite → Prop}

/-- From every handle within `I` the operation stays within `R` and `W`, and the handle that it
leaves is within `I` again. -/
def Respects (I : Handle → Prop) (R : Word → Prop) (W : Word → MaskedWrite → Prop)
    (c : Control α) : Prop :=
  ∀ h, I h → (c.start h).Meets R W fun ended => I ended.2

namespace Respects

theorem pure (a : α) : Respects I R W (pure a : Control α) := fun _ within => within

theorem refuse (e : PioError) : Respects I R W (Control.refuse e : Control α) :=
  fun _ within => within

theorem throw (e : Failure) : Respects I R W (throw e : Control α) := fun _ within => within

theorem set {h : Handle} (within : I h) : Respects I R W (set h : Control PUnit) :=
  fun _ _ => within

theorem modify {f : Handle → Handle} (within : ∀ h, I h → I (f h)) :
    Respects I R W (modify f : Control PUnit) := within

theorem ofExcept {ε : Type} (wrap : ε → PioError) (outcome : Except ε α) :
    Respects I R W (Control.ofExcept wrap outcome) := by
  cases outcome with
  | ok a => exact pure a
  | error e => exact refuse _

theorem bind {c : Control α} {next : α → Control β} (first : Respects I R W c)
    (rest : ∀ a, Respects I R W (next a)) : Respects I R W (c >>= next) := by
  intro h within
  rw [start_bind]
  refine (first h within).bind fun ended kept => ?_
  obtain ⟨e | a, h'⟩ := ended
  · exact kept
  · exact rest a h' kept

theorem get_bind {next : Handle → Control β}
    (rest : ∀ h, I h → Respects I R W (next h)) :
    Respects I R W ((get : Control Handle) >>= next) := by
  intro h within
  rw [start_bind, start_get]
  exact rest h within h within

theorem tryCatch {c : Control α} {next : Failure → Control α} (first : Respects I R W c)
    (rest : ∀ e, Respects I R W (next e)) : Respects I R W (tryCatch c next) := by
  intro h within
  rw [start_tryCatch]
  refine (first h within).bind fun ended kept => ?_
  obtain ⟨e | a, h'⟩ := ended
  · exact rest e h' kept
  · exact kept

theorem transact {t : Transaction α} (meets : t.Respects R W) :
    Respects I R W (Control.transact t) := by
  intro h within
  rw [start_transact]
  exact Procedure.Meets.bind meets fun outcome _ => within

theorem access {r : PioRegister} {kind : RegisterAccess α}
    (meets : ∀ h, I h → (kind.transaction (h.address r)).Respects R W) :
    Respects I R W (Control.access r kind) :=
  get_bind fun h within => transact (meets h within)

end Respects

end Control

end PioBlock
