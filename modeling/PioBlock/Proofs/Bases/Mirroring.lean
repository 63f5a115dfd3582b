import PioBlock.Proofs.Footprint
import PioBlock.Proofs.Bases.Aliasing

/-! The same done at two bases. Two procedures mirror each other when they access the same registers
through the same aliases, make the same masked writes, and end alike, as long as no access fails;
then on two blocks with the same registers they leave the same registers. An operation mirrors
another when the procedures that they start do, on handles that differ in nothing but the base. -/

namespace PioBlock

/-- Two bases at each of which every alias is read as it is meant. -/
structure Bases where
  left : Word
  right : Word
  left_aligned : Layout.IsAligned left
  right_aligned : Layout.IsAligned right
  left_free : Layout.IsAliasFree left
  right_free : Layout.IsAliasFree right

namespace Bases

def Matches (m : Bases) (x y : Word) : Prop :=
  ∃ (r : PioRegister) (a : Alias), r.Driven ∧
    x = Layout.address m.left r.index ||| a.bits ∧ y = Layout.address m.right r.index ||| a.bits

theorem matches_alias (m : Bases) {r : PioRegister} (driven : r.Driven) (a : Alias) :
    m.Matches (Layout.address m.left r.index ||| a.bits)
      (Layout.address m.right r.index ||| a.bits) := ⟨r, a, driven, rfl, rfl⟩

theorem matches_plain (m : Bases) {r : PioRegister} (driven : r.Driven) :
    m.Matches (Layout.address m.left r.index) (Layout.address m.right r.index) := by
  have plain := m.matches_alias driven .plain
  rwa [Layout.or_bits_plain, Layout.or_bits_plain] at plain

theorem Matches.ofAddress_eq {m : Bases} {x y : Word} (same : m.Matches x y) (value : Word) :
    MaskedWrite.ofAddress y value = MaskedWrite.ofAddress x value := by
  obtain ⟨r, a, driven, rfl, rfl⟩ := same
  rw [MaskedWrite.ofAddress, MaskedWrite.ofAddress, m.left_free.ofAddress_address driven,
    m.right_free.ofAddress_address driven]

end Bases

namespace Procedure

variable {α β α' β' : Type} {m : Bases}

/-- As long as the accesses succeed, they are the same and lead to values related by `Q`. -/
def Mirrors (m : Bases) (Q : α → β → Prop) : Procedure α → Procedure β → Prop
  | .done a, .done b => Q a b
  | .read x k, .read y l => m.Matches x y ∧ ∀ word, (k (.ok word)).Mirrors m Q (l (.ok word))
  | .write x v k, .write y w l => m.Matches x y ∧ v = w ∧ (k (.ok ())).Mirrors m Q (l (.ok ()))
  | _, _ => False

theorem Mirrors.bind {Q : α → β → Prop} {Q' : α' → β' → Prop} {p : Procedure α}
    {q : Procedure β} {next : α → Procedure α'} {next' : β → Procedure β'}
    (first : p.Mirrors m Q q) (rest : ∀ a b, Q a b → (next a).Mirrors m Q' (next' b)) :
    (p >>= next).Mirrors m Q' (q >>= next') := by
  -- the second tree has the shape of the first, so the induction is on the first alone
  induction p generalizing q with
  | done a =>
    cases q with
    | done b => exact rest a b first
    | read | write => exact first.elim
  | read x k ih =>
    cases q with
    | read y l => exact ⟨first.1, fun word => ih _ (first.2 word)⟩
    | done | write => exact first.elim
  | write x v k ih =>
    cases q with
    | write y w l => exact ⟨first.1, first.2.1, ih _ first.2.2⟩
    | done | read => exact first.elim

theorem Mirrors.run {Q : α → β → Prop} {p : Procedure α} {q : Procedure β} (same : p.Mirrors m Q q)
    {registers : List Register} (size : registers.length = PioRegister.count) :
    ∃ after : List Register, after.length = PioRegister.count ∧
      (p.run (Dispatch.lone m.left registers)).space = Dispatch.lone m.left after ∧
      (q.run (Dispatch.lone m.right registers)).space = Dispatch.lone m.right after ∧
      Q (p.run (Dispatch.lone m.left registers)).value
        (q.run (Dispatch.lone m.right registers)).value := by
  induction p generalizing q registers with
  | done a =>
    cases q with
    | done b => exact ⟨registers, size, rfl, rfl, same⟩
    | read | write => exact same.elim
  | read x k ih =>
    cases q with
    | read y l =>
      obtain ⟨⟨r, a, -, rfl, rfl⟩, rest⟩ := same
      obtain ⟨word, left, held⟩ := Dispatch.read_lone m.left_aligned size r a
      obtain ⟨word', right, held'⟩ := Dispatch.read_lone m.right_aligned size r a
      obtain rfl : word' = word := Option.some.inj (held'.symm.trans held)
      simp only [Procedure.run, left, right]
      exact ih _ (rest _) size
    | done | write => exact same.elim
  | write x v k ih =>
    cases q with
    | write y w l =>
      obtain ⟨⟨r, a, -, rfl, rfl⟩, rfl, rest⟩ := same
      simp only [Procedure.run, Dispatch.write_lone m.left_aligned size r a v,
        Dispatch.write_lone m.right_aligned size r a v]
      exact ih _ rest (by rw [List.length_modify, size])
    | done | read => exact same.elim

end Procedure

namespace Transaction

variable {α β : Type} {m : Bases}

/-- The same accesses with the same result, which is not an error unless one of them fails. -/
def Mirrors (m : Bases) (t t' : Transaction α) : Prop :=
  t.run.Mirrors m (fun o o' => o' = o ∧ ∃ a, o = .ok a) t'.run

namespace Mirrors

theorem pure (a : α) : Mirrors m (pure a) (pure a) := ⟨rfl, a, rfl⟩

theorem bind {t t' : Transaction α} {next next' : α → Transaction β} (first : Mirrors m t t')
    (rest : ∀ a, Mirrors m (next a) (next' a)) : Mirrors m (t >>= next) (t' >>= next') := by
  refine Procedure.Mirrors.bind first fun o o' same => ?_
  obtain ⟨rfl, a, rfl⟩ := same
  exact rest a

theorem outcome_bind {t t' : Transaction α} {next next' : Except RegisterError α → Transaction β}
    (first : Mirrors m t t') (rest : ∀ a, Mirrors m (next (.ok a)) (next' (.ok a))) :
    Mirrors m (ExceptT.lift t.run >>= next) (ExceptT.lift t'.run >>= next') := by
  have lifted (t : Transaction α) (next : Except RegisterError α → Transaction β) :
      (ExceptT.lift t.run >>= next).run = t.run >>= fun o => (next o).run := by
    rw [ExceptT.run_bind, ExceptT.run_lift, map_eq_pure_bind, Procedure.bind_assoc]
    rfl
  rw [Mirrors, lifted, lifted]
  refine Procedure.Mirrors.bind first fun o o' same => ?_
  obtain ⟨rfl, a, rfl⟩ := same
  exact rest a

theorem read {x y : Word} (same : m.Matches x y) : Mirrors m (read x) (read y) :=
  ⟨same, fun word => ⟨rfl, word, rfl⟩⟩

theorem change {x y : Word} (same : m.Matches x y) (w : MaskedWrite) :
    Mirrors m (change x w) (change y w) := ⟨same, rfl, rfl, (), rfl⟩

theorem write {x y : Word} (same : m.Matches x y) (value : Word) :
    Mirrors m (write x value) (write y value) := by
  rw [Transaction.write, Transaction.write, same.ofAddress_eq]
  exact change same _

theorem writeAll {items : List (PioRegister × Word)} (driven : ∀ item ∈ items, item.1.Driven) :
    Mirrors m (writeAll (items.map fun item => (Layout.address m.left item.1.index, item.2)))
      (writeAll (items.map fun item => (Layout.address m.right item.1.index, item.2))) := by
  induction items with
  | nil => exact pure ()
  | cons item rest ih =>
    obtain ⟨first, driven⟩ := List.forall_mem_cons.mp driven
    exact (write (m.matches_plain first) item.2).bind fun _ => ih driven

end Mirrors

end Transaction

def Handle.rebase (h : Handle) (base : Word) : Handle := { h with base := base }

namespace Control

variable {α β : Type} {m : Bases}

/-- The two ends are alike: the same outcome, which is no failed access, and handles that differ
in the base only. -/
structure Alike (m : Bases) (ended ended' : Except Failure α × Handle) : Prop where
  same : ended' = (ended.1, ended.2.rebase m.right)
  base : ended.2.base = m.left
  served : ∀ e, ended.1 ≠ .error (.error (.register e))

/-- Started on handles that differ in the base only, the two operations do the same and end
alike. -/
def Mirrors (m : Bases) (c c' : Control α) : Prop :=
  ∀ h : Handle, h.base = m.left →
    (c.start h).Mirrors m (Alike m) (c'.start (h.rebase m.right))

namespace Mirrors

theorem pure (a : α) : Mirrors m (pure a) (pure a) := fun _ base => ⟨rfl, base, nofun⟩

theorem throw {e : Failure} (other : ∀ cause, e ≠ .error (.register cause)) :
    Mirrors m (throw e : Control α) (throw e) :=
  fun _ base => ⟨rfl, base, fun cause same => other cause (Except.error.inj same)⟩

theorem refuse {e : PioError} (other : e.isRegister = false) :
    Mirrors m (Control.refuse e : Control α) (Control.refuse e) :=
  throw fun cause same => by
    cases same
    cases other

theorem ofExcept {ε : Type} {wrap : ε → PioError} (other : ∀ e, (wrap e).isRegister = false)
    (outcome : Except ε α) :
    Mirrors m (Control.ofExcept wrap outcome) (Control.ofExcept wrap outcome) := by
  cases outcome with
  | ok a => exact pure a
  | error e => exact refuse (other e)

theorem set {h : Handle} (base : h.base = m.left) :
    Mirrors m (set h : Control PUnit) (set (h.rebase m.right)) :=
  fun _ _ => ⟨rfl, base, nofun⟩

theorem modify {f : Handle → Handle} (keeps : ∀ h, (f h).base = h.base)
    (blind : ∀ h, f (h.rebase m.right) = (f h).rebase m.right) :
    Mirrors m (modify f : Control PUnit) (modify f) :=
  fun h base => ⟨congrArg (Prod.mk _) (blind h), (keeps h).trans base, nofun⟩

theorem bind {c c' : Control α} {next next' : α → Control β} (first : Mirrors m c c')
    (rest : ∀ a, Mirrors m (next a) (next' a)) : Mirrors m (c >>= next) (c' >>= next') := by
  intro h base
  rw [start_bind, start_bind]
  refine (first h base).bind fun ended ended' alike => ?_
  obtain ⟨outcome, h'⟩ := ended
  obtain ⟨rfl, base, served⟩ := alike
  cases outcome with
  | error e =>
    exact ⟨rfl, base, fun cause failed => served cause (congrArg _ (Except.error.inj failed))⟩
  | ok a => exact rest a h' base

theorem get_bind {next next' : Handle → Control β}
    (rest : ∀ h, h.base = m.left → Mirrors m (next h) (next' (h.rebase m.right))) :
    Mirrors m ((get : Control Handle) >>= next) ((get : Control Handle) >>= next') := by
  intro h base
  rw [start_bind, start_get, start_bind, start_get]
  exact rest h base h base

theorem tryCatch {c c' : Control α} {next next' : Failure → Control α} (first : Mirrors m c c')
    (rest : ∀ e, Mirrors m (next e) (next' e)) :
    Mirrors m (tryCatch c next) (tryCatch c' next') := by
  intro h base
  rw [start_tryCatch, start_tryCatch]
  refine (first h base).bind fun ended ended' alike => ?_
  obtain ⟨outcome, h'⟩ := ended
  obtain ⟨rfl, base, -⟩ := alike
  cases outcome with
  | error e => exact rest e h' base
  | ok a => exact ⟨rfl, base, nofun⟩

theorem attempt_bind {t t' : Transaction α} {next next' : Except RegisterError α → Control β}
    (first : t.Mirrors m t') (rest : ∀ a, Mirrors m (next (.ok a)) (next' (.ok a))) :
    Mirrors m (attempt t >>= next) (attempt t' >>= next') := by
  intro h base
  rw [start_bind, start_attempt, Procedure.bind_assoc, start_bind, start_attempt,
    Procedure.bind_assoc]
  refine Procedure.Mirrors.bind first fun o o' same => ?_
  obtain ⟨rfl, a, rfl⟩ := same
  exact rest a h base

theorem transact {t t' : Transaction α} (same : t.Mirrors m t') :
    Mirrors m (Control.transact t) (Control.transact t') :=
  attempt_bind same fun a => pure a

theorem access {r : PioRegister} (driven : r.Driven) (kind : RegisterAccess α) :
    Mirrors m (Control.access r kind) (Control.access r kind) :=
  get_bind fun h base => by
    rw [Handle.address, base]
    refine transact ?_
    cases kind with
    | read => exact .read (m.matches_plain driven)
    | write value => exact .write (m.matches_plain driven) value
    | change w => exact .change (m.matches_plain driven) w
    | writeThrough a value => exact .write (m.matches_alias driven a) value

end Mirrors

end Control

end PioBlock
