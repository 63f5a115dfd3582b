import PioBlock.Proofs.Isolation

/-! What `CTRL` tells of the past. Its bits stand in three rows, with one bit for each state machine.
An operation that succeeds raises some of these bits and lowers others, and no operation does
anything else to the register. Hence after any run of operations a bit is one exactly when some
operation has raised it and none has lowered it since. -/

namespace PioBlock

open Control

inductive CtrlRow where
  | enable
  | restart
  | divider
deriving DecidableEq, Repr

namespace CtrlRow

def field : CtrlRow → Field
  | enable => Layout.smEnable
  | restart => Layout.smRestart
  | divider => Layout.clkdivRestart

def bit (row : CtrlRow) (sm : StateMachine) : Nat := row.field.lsb + sm.val

theorem eq_of_bit_eq {row row' : CtrlRow} {sm sm' : StateMachine}
    (same : row.bit sm = row'.bit sm') : row = row' ∧ sm = sm' := by
  have := sm.isLt
  have := sm'.isLt
  have rows : row = row' := by
    cases row <;> cases row' <;>
      simp only [bit, field, Layout.smEnable, Layout.smRestart, Layout.clkdivRestart, Field.of,
        reduceCtorEq] at same ⊢ <;> omega
  subst rows
  exact ⟨rfl, Fin.ext (Nat.add_left_cancel same)⟩

theorem bit_lt (row : CtrlRow) (sm : StateMachine) : row.bit sm < 12 := by
  have := sm.isLt
  cases row <;>
    simp only [bit, field, Layout.smEnable, Layout.smRestart, Layout.clkdivRestart, Field.of] <;>
    omega

theorem getLsbD_place (row row' : CtrlRow) (machines : MachineSet) (sm : StateMachine) :
    (row.field.place machines.word).getLsbD (row'.bit sm) =
      (decide (row = row') && machines.has sm) := by
  rw [Bool.eq_iff_iff, Bool.and_eq_true, decide_eq_true_eq]
  constructor
  · intro one
    obtain ⟨sm', member, same⟩ := MachineSet.exists_has_of_place one
    obtain ⟨rfl, rfl⟩ := eq_of_bit_eq same
    exact ⟨rfl, member⟩
  · rintro ⟨rfl, member⟩
    have width : row.field.width = 4 := by cases row <;> rfl
    have lt := sm.isLt
    rw [Field.getLsbD_place, Bool.and_eq_true, Field.covers_eq_true, bit]
    refine ⟨by omega, ?_⟩
    rw [Nat.add_sub_cancel_left, MachineSet.word, BitVec.getLsbD_setWidth, Bool.and_eq_true]
    exact ⟨decide_eq_true (by omega), member⟩

theorem getLsbD_place_of_le (row : CtrlRow) (machines : MachineSet) {n : Nat} (le : 12 ≤ n) :
    (row.field.place machines.word).getLsbD n = false := by
  refine Bool.eq_false_iff.mpr fun one => ?_
  obtain ⟨sm, -, rfl⟩ := MachineSet.exists_has_of_place one
  exact absurd (row.bit_lt sm) (Nat.not_lt.mpr le)

end CtrlRow

/-- The bits of `CTRL` that something is done to. -/
abbrev Strobes := CtrlRow → StateMachine → Bool

def Strobes.row (row : CtrlRow) (machines : MachineSet) : Strobes := fun row' sm =>
  decide (row = row') && machines.has sm

def Strobes.none : Strobes := fun _ _ => false

/-- The second word is the first with some bits raised, after others were lowered. -/
structure Turned (raised lowered : Strobes) (w w' : Word) : Prop where
  bits : ∀ row sm, w'.getLsbD (row.bit sm) =
    (raised row sm || (w.getLsbD (row.bit sm) && !lowered row sm))
  rest : ∀ n, 12 ≤ n → w'.getLsbD n = w.getLsbD n

namespace Turned

variable {raised lowered raised' lowered' : Strobes} {w w' w'' : Word}

theorem refl (w : Word) : Turned .none .none w w :=
  ⟨fun row sm => by simp [Strobes.none], fun _ _ => rfl⟩

theorem congr (turned : Turned raised lowered w w') (up : ∀ row sm, raised row sm = raised' row sm)
    (down : ∀ row sm, lowered row sm = lowered' row sm) : Turned raised' lowered' w w' :=
  ⟨fun row sm => by rw [turned.bits, up, down], turned.rest⟩

theorem trans (first : Turned raised lowered w w') (second : Turned raised' lowered' w' w'') :
    Turned (fun row sm => raised' row sm || (raised row sm && !lowered' row sm))
      (fun row sm => lowered row sm || lowered' row sm) w w'' where
  bits row sm := by
    rw [second.bits, first.bits]
    cases raised row sm <;> cases lowered row sm <;> cases raised' row sm <;>
      cases lowered' row sm <;> simp
  rest n le := (second.rest n le).trans (first.rest n le)

theorem set (row : CtrlRow) (machines : MachineSet) (w : Word) :
    Turned (.row row machines) .none w (w ||| row.field.place machines.word) where
  bits row' sm := by
    rw [BitVec.getLsbD_or, row.getLsbD_place, Strobes.row, Strobes.none, Bool.not_false,
      Bool.and_true, Bool.or_comm]
  rest n le := by rw [BitVec.getLsbD_or, row.getLsbD_place_of_le machines le, Bool.or_false]

theorem clear (row : CtrlRow) (machines : MachineSet) (w : Word) :
    Turned .none (.row row machines) w (w &&& ~~~row.field.place machines.word) where
  bits row' sm := by
    have inside : row'.bit sm < 32 := Nat.lt_trans (row'.bit_lt sm) (by decide)
    rw [BitVec.getLsbD_and, BitVec.getLsbD_not, row.getLsbD_place, Strobes.row, Strobes.none,
      decide_eq_true inside, Bool.true_and, Bool.false_or]
  rest n le := by
    rw [BitVec.getLsbD_and, BitVec.getLsbD_not, row.getLsbD_place_of_le machines le]
    by_cases inside : n < 32
    · rw [decide_eq_true inside, Bool.not_false, Bool.and_true, Bool.and_true]
    · rw [BitVec.getLsbD_of_ge _ n (Nat.le_of_not_lt inside), Bool.false_and]

end Turned

namespace Operation

/-- Whether the operation raises the bit of a state machine in a row, if it succeeds. -/
def raises : Operation → Strobes
  | .setEnabled n on, .enable, sm => on && n == sm.val
  | .setMaskEnabled mask on, .enable, sm => on && mask.testBit sm.val
  | .enableMaskInSync mask, .enable, sm | .enableMaskInSync mask, .divider, sm
  | .restartMask mask, .restart, sm | .restartDividersMask mask, .divider, sm =>
    mask.testBit sm.val
  | .restart n, .restart, sm | .restartDivider n, .divider, sm | .initialise n _ _, .restart, sm
  | .initialise n _ _, .divider, sm => n == sm.val
  | _, _, _ => false

def lowers : Operation → Strobes
  | .setEnabled n on, .enable, sm => !on && n == sm.val
  | .setMaskEnabled mask on, .enable, sm => !on && mask.testBit sm.val
  | .initialise n _ _, .enable, sm => n == sm.val
  | _, _, _ => false

end Operation

namespace Dispatch.Holds

variable {d : Dispatch RegisterFile} {position pio : Nat} {base : Word}
  {words : PioRegister → Word}

theorem writeAll_of_ne (holds : d.Holds position pio base words) (window : Layout.IsWindow base)
    {r : PioRegister} {stores : List (PioRegister × Word)} (apart : ∀ store ∈ stores, store.1 ≠ r) :
    ∃ words', ((Transaction.writeAll (stores.map fun store =>
      (Layout.address base store.1.index, store.2))).run.run d).space.Holds position pio base words' ∧
      words' r = words r := by
  induction stores generalizing d words with
  | nil => exact ⟨words, holds, rfl⟩
  | cons head rest ih =>
    have first := holds.write_eq window head.1 .plain
      (.ofAddress (Layout.address base head.1.index) head.2)
    rw [Layout.or_bits_plain] at first
    obtain ⟨words', holds', kept⟩ := ih (holds.storeAt head.1 _)
      fun store member => apart store (List.mem_cons_of_mem _ member)
    rw [Function.update_of_ne (apart head (List.mem_cons_self ..)).symm] at kept
    refine ⟨words', ?_, kept⟩
    rw [List.map_cons, Transaction.run_writeAll_cons]
    simp only [Procedure.run, first]
    exact holds'

end Dispatch.Holds

namespace Control

variable {α β : Type} {raised lowered raised' lowered' : Strobes}

/-- On a block among plain register files the operation succeeds, leaves the handle alone, and turns
`CTRL` so. -/
def Turns (raised lowered : Strobes) (c : Control α) : Prop :=
  ∀ (d : Dispatch RegisterFile) (position pio : Nat) (words : PioRegister → Word) (h : Handle),
    d.Holds position pio h.base words → Layout.IsWindow h.base →
    ∃ a words', ((c.start h).run d).value = (.ok a, h) ∧
      ((c.start h).run d).space.Holds position pio h.base words' ∧
      Turned raised lowered (words .ctrl) (words' .ctrl)

namespace Turns

theorem congr {c : Control α} (turns : Turns raised lowered c)
    (up : ∀ row sm, raised row sm = raised' row sm)
    (down : ∀ row sm, lowered row sm = lowered' row sm) : Turns raised' lowered' c := by
  intro d position pio words h holds window
  obtain ⟨a, words', value, space, turned⟩ := turns d position pio words h holds window
  exact ⟨a, words', value, space, turned.congr up down⟩

theorem bind {c : Control α} {next : α → Control β} (first : Turns raised lowered c)
    (rest : ∀ a, Turns raised' lowered' (next a)) :
    Turns (fun row sm => raised' row sm || (raised row sm && !lowered' row sm))
      (fun row sm => lowered row sm || lowered' row sm) (c >>= next) := by
  intro d position pio words h holds window
  obtain ⟨a, words', value, space, turned⟩ := first d position pio words h holds window
  obtain ⟨b, words'', value', space', turned'⟩ := rest a _ position pio words' h space window
  refine ⟨b, words'', ?_, ?_, turned.trans turned'⟩
  · rw [start_bind, Procedure.run_bind]
    simp only [value]
    exact value'
  · rw [start_bind, Procedure.run_bind]
    simp only [value]
    exact space'

theorem bind_calm {c : Control α} {next : α → Control β} (first : Turns raised lowered c)
    (rest : ∀ a, Turns .none .none (next a)) : Turns raised lowered (c >>= next) :=
  (first.bind rest).congr (fun _ _ => by simp [Strobes.none]) fun _ _ => by simp [Strobes.none]

theorem calm_bind {c : Control α} {next : α → Control β} (first : Turns .none .none c)
    (rest : ∀ a, Turns raised lowered (next a)) : Turns raised lowered (c >>= next) :=
  (first.bind rest).congr (fun _ _ => by simp [Strobes.none]) fun _ _ => by simp [Strobes.none]

theorem pure (a : α) : Turns .none .none (pure a : Control α) :=
  fun _ _ _ words _ holds _ => ⟨a, words, rfl, holds, .refl _⟩

theorem acting {c : Control Unit} (turns : Turns raised lowered c) :
    Turns raised lowered (Operation.acting c) :=
  turns.bind_calm fun _ => .pure _

theorem writeThrough {a : Alias} {r : PioRegister} {value : Word}
    (turned : ∀ words : PioRegister → Word, Turned raised lowered (words .ctrl)
      (Function.update words r (r.kind.store (a.write value) (words r)) .ctrl)) :
    Turns raised lowered (Control.writeThrough a r value) := by
  intro d position pio words h holds window
  have named := Layout.ofAddress_address window (Nat.lt_trans r.index_lt (by decide)) a
  have step := holds.write_eq window r a (a.write value)
  have started : (Control.writeThrough a r value).start h =
      .write (Layout.address h.base r.index ||| a.bits) (a.write value) fun answer =>
        .done (answer.mapError (.error ∘ .register), h) := by
    rw [Control.writeThrough, start_access, start_transact, RegisterAccess.transaction,
      Transaction.write, MaskedWrite.ofAddress, Handle.address, named]
    rfl
  rw [started]
  simp only [Procedure.run, step]
  exact ⟨_, _, rfl, holds.storeAt r _, turned words⟩

theorem set (row : CtrlRow) (machines : MachineSet) :
    Turns (.row row machines) .none
      (Control.writeThrough .set .ctrl (row.field.place machines.word)) :=
  writeThrough fun words => by
    rw [Function.update_self, PioRegister.kind, RegisterKind.store, Alias.apply_write_set]
    exact .set row machines _

theorem clear (row : CtrlRow) (machines : MachineSet) :
    Turns .none (.row row machines)
      (Control.writeThrough .clear .ctrl (row.field.place machines.word)) :=
  writeThrough fun words => by
    rw [Function.update_self, PioRegister.kind, RegisterKind.store, Alias.apply_write_clear]
    exact .clear row machines _

theorem writeThrough_of_ne {r : PioRegister} (apart : r ≠ .ctrl) (a : Alias) (value : Word) :
    Turns .none .none (Control.writeThrough a r value) :=
  writeThrough fun words => by
    rw [Function.update_of_ne apart.symm]
    exact .refl _

theorem writeRegister_of_ne {r : PioRegister} (apart : r ≠ .ctrl) (value : Word) :
    Turns .none .none (Control.writeRegister r value) := by
  have same : Control.writeRegister r value = Control.writeThrough .plain r value := by
    simp only [Control.writeRegister, Control.writeThrough, access, RegisterAccess.transaction,
      Layout.or_bits_plain]
  rw [same]
  exact writeThrough_of_ne apart .plain value

end Turns

theorem turns_configure (sm : StateMachine) (config : Config) :
    Turns .none .none (configure sm config) := by
  intro d position pio words h holds window
  have apart : ∀ store ∈ configWords sm config, store.1 ≠ .ctrl := by
    simp [configWords]
  have value := holds.writeAll_value_eq_ok window (configWords sm config)
  obtain ⟨words', space, kept⟩ := holds.writeAll_of_ne window apart
  rw [configure, start_bind, start_get, Procedure.done_bind]
  dsimp only
  rw [start_transact, Procedure.run_bind]
  simp only [Handle.address, value]
  exact ⟨(), words', rfl, space, kept ▸ .refl _⟩

theorem turns_enable (machines : MachineSet) (on : Bool) :
    Turns (fun row sm => on && Strobes.row .enable machines row sm)
      (fun row sm => !on && Strobes.row .enable machines row sm) (enable machines on) := by
  cases on with
  | true => exact (Turns.set .enable machines).congr (fun _ _ => rfl) fun _ _ => rfl
  | false => exact (Turns.clear .enable machines).congr (fun _ _ => rfl) fun _ _ => rfl

theorem turns_restart (machines : MachineSet) :
    Turns (.row .restart machines) .none (restart machines) :=
  .set .restart machines

theorem turns_restartDividers (machines : MachineSet) :
    Turns (.row .divider machines) .none (restartDividers machines) :=
  .set .divider machines

theorem turns_enableInSync (machines : MachineSet) :
    Turns (fun row sm => Strobes.row .enable machines row sm || Strobes.row .divider machines row sm)
      .none (enableInSync machines) :=
  .writeThrough fun words => by
    rw [Function.update_self, PioRegister.kind, RegisterKind.store, Alias.apply_write_set,
      ← BitVec.or_assoc]
    exact ((Turned.set .divider machines _).trans (.set .enable machines _)).congr
      (fun _ _ => by simp [Strobes.none]) fun _ _ => rfl

theorem turns_clearQueues (sm : StateMachine) : Turns .none .none (clearQueues sm) :=
  (Turns.writeThrough_of_ne (by simp) _ _).calm_bind fun _ =>
    Turns.writeThrough_of_ne (by simp) _ _

theorem turns_initialise (sm : StateMachine) (pc : Slot) (config : Config) :
    Turns (fun row other => Strobes.row .restart sm.single row other ||
        Strobes.row .divider sm.single row other)
      (.row .enable sm.single) (initialise sm pc config) := by
  have execute : Turns .none .none (execute sm (.jmp pc.val)) :=
    Turns.writeRegister_of_ne (by simp) _
  have restarts := (turns_restart sm.single).bind fun _ =>
    (turns_restartDividers sm.single).bind_calm fun _ => execute
  have flags : Turns .none .none (writeRegister .fdebug (debugFlags sm)) :=
    Turns.writeRegister_of_ne (by simp) _
  have turns := (turns_enable sm.single false).bind fun _ =>
    (turns_configure sm config).calm_bind fun _ =>
      (turns_clearQueues sm).calm_bind fun _ => flags.calm_bind fun _ => restarts
  refine turns.congr (fun row other => ?_) fun row other => ?_
  · simp [Strobes.none, Bool.or_comm]
  · simp [Strobes.none]

end Control

namespace Operation

variable {α : Type}

def Refused (c : Control α) : Prop := ∃ e, ∀ h, c.start h = .done (.error (.error e), h)

theorem machine_bind_cases (n : Nat) (next : StateMachine → Control α) :
    Refused (machine n >>= next) ∨ ∃ sm : StateMachine, sm.val = n ∧ machine n >>= next = next sm := by
  by_cases small : n < 4
  · refine .inr ⟨⟨n, small⟩, rfl, ?_⟩
    rw [machine_val ⟨n, small⟩, pure_bind]
  · rw [machine_of_not_lt small]
    exact .inl ⟨_, fun _ => rfl⟩

theorem machines_bind_cases (mask : Nat) (next : MachineSet → Control α) :
    Refused (machines mask >>= next) ∨ machines mask >>= next = next (BitVec.ofNat 4 mask) := by
  by_cases small : mask < 16
  · rw [machines_of_lt small, pure_bind]
    exact .inr rfl
  · rw [machines_of_not_lt small]
    exact .inl ⟨_, fun _ => rfl⟩

theorem row_single (row : CtrlRow) (sm : StateMachine) (row' : CtrlRow) (other : StateMachine) :
    Strobes.row row sm.single row' other = (decide (row = row') && sm.val == other.val) := by
  rw [Strobes.row, MachineSet.has_single, Bool.beq_eq_decide_eq, decide_eq_decide.mpr Fin.ext_iff]

theorem row_ofNat (row : CtrlRow) (mask : Nat) (row' : CtrlRow) (sm : StateMachine) :
    Strobes.row row (BitVec.ofNat 4 mask) row' sm =
      (decide (row = row') && mask.testBit sm.val) := by
  rw [Strobes.row, MachineSet.has_ofNat]

theorem turns_perform {op : Operation} (strobes : op.strobes = true) (polls : Nat) :
    Refused (op.perform polls) ∨ Turns op.raises op.lowers (op.perform polls) := by
  cases op with
  | initialise n pc config =>
    refine (machine_bind_cases n _).elim .inl ?_
    rintro ⟨sm, rfl, same⟩
    rw [perform, same]
    by_cases small : pc < 32
    · obtain ⟨pc, rfl⟩ : ∃ slot : Slot, slot.val = pc := ⟨⟨pc, small⟩, rfl⟩
      rw [below32_val, pure_bind]
      refine .inr ((turns_initialise sm pc _).acting.congr (fun row other => ?_) fun row other => ?_)
      · cases row <;> simp [row_single, raises]
      · cases row <;> simp [row_single, lowers]
    · rw [below32, dif_neg small]
      exact .inl ⟨_, fun _ => rfl⟩
  | setEnabled n on =>
    refine (machine_bind_cases n _).imp_right ?_
    rintro ⟨sm, rfl, same⟩
    rw [perform, same]
    refine (turns_enable sm.single on).acting.congr (fun row other => ?_) fun row other => ?_
    · cases row <;> simp [row_single, raises]
    · cases row <;> simp [row_single, lowers]
  | restart n =>
    refine (machine_bind_cases n _).imp_right ?_
    rintro ⟨sm, rfl, same⟩
    rw [perform, same]
    refine (turns_restart sm.single).acting.congr (fun row other => ?_) fun row other => rfl
    cases row <;> simp [row_single, raises]
  | restartDivider n =>
    refine (machine_bind_cases n _).imp_right ?_
    rintro ⟨sm, rfl, same⟩
    rw [perform, same]
    refine (turns_restartDividers sm.single).acting.congr (fun row other => ?_) fun row other => rfl
    cases row <;> simp [row_single, raises]
  | setMaskEnabled mask on =>
    refine (machines_bind_cases mask _).imp_right fun same => ?_
    rw [perform, same]
    refine (turns_enable _ on).acting.congr (fun row sm => ?_) fun row sm => ?_
    · cases row <;> simp [row_ofNat, raises]
    · cases row <;> simp [row_ofNat, lowers]
  | restartMask mask =>
    refine (machines_bind_cases mask _).imp_right fun same => ?_
    rw [perform, same]
    refine (turns_restart _).acting.congr (fun row sm => ?_) fun row sm => rfl
    cases row <;> simp [row_ofNat, raises]
  | restartDividersMask mask =>
    refine (machines_bind_cases mask _).imp_right fun same => ?_
    rw [perform, same]
    refine (turns_restartDividers _).acting.congr (fun row sm => ?_) fun row sm => rfl
    cases row <;> simp [row_ofNat, raises]
  | enableMaskInSync mask =>
    refine (machines_bind_cases mask _).imp_right fun same => ?_
    rw [perform, same]
    refine (turns_enableInSync _).acting.congr (fun row sm => ?_) fun row sm => rfl
    cases row <;> simp [row_ofNat, raises]
  | _ => cases strobes

theorem raises_of_calm {op : Operation} (calm : op.strobes = false) :
    op.raises = .none ∧ op.lowers = .none := by
  cases op with
  | initialise n pc config | setEnabled n on | setMaskEnabled mask on | restartMask mask
  | restartDividersMask mask | enableMaskInSync mask | restart n | restartDivider n => cases calm
  | _ => exact ⟨rfl, rfl⟩

theorem lowers_of_ne (op : Operation) {row : CtrlRow} (other : row ≠ .enable) (sm : StateMachine) :
    op.lowers row sm = false := by
  cases row with
  | enable => exact absurd rfl other
  | restart | divider => cases op <;> rfl

theorem ctrl_untouched {op : Operation} (moves : ¬ op.movesPrograms = false)
    (own : op.namesBase = false) (outcome : Except Failure Answer) (n : Nat) :
    ¬ op.subject.Touches outcome .ctrl n := by
  cases op with
  | load p offset =>
    rintro ⟨_, slot, -, -, same⟩
    cases same
  | clear =>
    rintro ⟨slot, same⟩
    cases same
  | unload p offset | allocate r checkOnly => exact id
  | loadInto base p offset | clearIn base => cases own
  | _ => exact absurd rfl moves

end Operation

theorem Scope.admitsDriving_under {may : PioRegister → Nat → Prop} (subject : Subject)
    (machine : ∀ sm r n, may (.machine sm r) n) (queue : ∀ sm n, may (.txf sm) n) :
    (under may).AdmitsDriving subject := by
  cases subject with
  | machine number =>
    exact fun sm _ => ⟨fun _ => writes_under (machine sm _) _ _,
      fun _ _ n outside => absurd (machine sm _ n) outside, fun _ => writes_under (queue sm) _ _⟩
  | machines mask | program p | memory | nothing => trivial

namespace Session

variable {s : Session (Dispatch RegisterFile)} {position pio : Nat} {words : PioRegister → Word}

theorem keeps_ctrl (holds : s.space.Holds position pio s.handle.base words)
    (window : Layout.IsWindow s.handle.base) (polls : Nat) {op : Operation}
    (own : op.namesBase = false) (calm : op.strobes = false) :
    (s.perform polls op).after.space.wordAt position .ctrl = s.space.wordAt position .ctrl := by
  have kept : (s.perform polls op).after.space.register? position PioRegister.ctrl.index =
      s.space.register? position PioRegister.ctrl.index := by
    by_cases still : op.movesPrograms = false
    · have admits : (Scope.under fun r _ => r ≠ .ctrl).AdmitsDriving op.subject :=
        Scope.admitsDriving_under _ (by simp) (by simp)
      have within := op.within_driving polls still calm (fun _ => trivial) admits
        s.handle s.handle rfl
      exact (holds.keeps_run window within).register?_eq fun n ⟨_, r, same, apart⟩ =>
        apart (PioRegister.index_injective same)
    · exact (confined_perform holds window polls own).keeps.register?_eq
        fun n ⟨_, r, same, touches⟩ =>
          op.ctrl_untouched still own _ n (PioRegister.index_injective same ▸ touches)
  rw [Dispatch.wordAt_eq_register?, kept, ← Dispatch.wordAt_eq_register?]

end Session

structure Performed where
  position : Nat
  op : Operation
  outcome : Except Failure Answer

namespace Performed

/-- The bits of `CTRL` in block `k` that it raised. -/
def raises (e : Performed) (k : Nat) : Strobes := fun row sm =>
  decide (e.position = k) && e.outcome.isOk && e.op.raises row sm

def lowers (e : Performed) (k : Nat) : Strobes := fun row sm =>
  decide (e.position = k) && e.outcome.isOk && e.op.lowers row sm

/-- One of the operations raised the bit, and none has lowered it since. -/
def RaisedLast (record : List Performed) (k : Nat) (row : CtrlRow) (sm : StateMachine) : Prop :=
  ∃ earlier e later, record = earlier ++ e :: later ∧ e.raises k row sm = true ∧
    ∀ l ∈ later, l.lowers k row sm = false

theorem not_raisedLast_nil {k : Nat} {row : CtrlRow} {sm : StateMachine} :
    ¬ RaisedLast [] k row sm := by
  rintro ⟨earlier, e, later, split, -⟩
  exact absurd split.symm (List.append_ne_nil_of_right_ne_nil _ (List.cons_ne_nil _ _))

theorem raisedLast_cons {e : Performed} {rest : List Performed} {k : Nat} {row : CtrlRow}
    {sm : StateMachine} : RaisedLast (e :: rest) k row sm ↔ RaisedLast rest k row sm ∨
      (e.raises k row sm = true ∧ ∀ l ∈ rest, l.lowers k row sm = false) := by
  constructor
  · rintro ⟨earlier, e', later, split, raised, kept⟩
    cases earlier with
    | nil =>
      cases split
      exact .inr ⟨raised, kept⟩
    | cons head earlier =>
      cases split
      exact .inl ⟨earlier, e', later, rfl, raised, kept⟩
  · rintro (⟨earlier, e', later, rfl, raised, kept⟩ | ⟨raised, kept⟩)
    · exact ⟨e :: earlier, e', later, rfl, raised, kept⟩
    · exact ⟨[], e, rest, rfl, raised, kept⟩

theorem raisedLast_iff {record : List Performed} {k : Nat} {row : CtrlRow} {sm : StateMachine}
    (other : row ≠ .enable) :
    RaisedLast record k row sm ↔ ∃ e ∈ record, e.raises k row sm = true := by
  constructor
  · rintro ⟨earlier, e, later, rfl, raised, -⟩
    exact ⟨e, by simp, raised⟩
  · rintro ⟨e, member, raised⟩
    obtain ⟨earlier, later, rfl⟩ := List.append_of_mem member
    refine ⟨earlier, e, later, rfl, raised, fun l _ => ?_⟩
    rw [lowers, l.op.lowers_of_ne other, Bool.and_false]

end Performed

/-- The operations that are performed, in order, each with the handle it went through and its
outcome. -/
def Machine.record {β : Type} [RegisterBlock β] (polls : Nat) (m : Machine β) :
    List (Nat × Operation) → List Performed
  | [] => []
  | call :: rest =>
    match m.perform polls call.1 call.2 with
    | none => m.record polls rest
    | some step => ⟨call.1, call.2, step.outcome⟩ :: step.machine.record polls rest

namespace Chip

variable {c : Chip}

theorem Wired.turned (wired : c.Wired) {polls k : Nat} {op : Operation}
    {step : Step RegisterFile (Except Failure Answer)} (own : op.namesBase = false)
    (performed : c.perform polls k op = some step) (q : Nat) {w : Word}
    (before : c.dispatch.wordAt q .ctrl = some w) :
    ∃ w', step.machine.dispatch.wordAt q .ctrl = some w' ∧
      Turned ((Performed.mk k op step.outcome).raises q) ((Performed.mk k op step.outcome).lowers q)
        w w' := by
  by_cases here : k = q
  · subst here
    obtain ⟨h, at_k, rfl⟩ := Option.map_eq_some_iff.mp performed
    obtain ⟨window, block, hosts⟩ := wired.hosts at_k
    obtain ⟨words, holds⟩ := hosts.holds
    cases before.symm.trans (holds.wordAt_eq .ctrl)
    by_cases strobes : op.strobes = true
    · obtain ⟨e, refused⟩ | turns := op.turns_perform strobes polls
      · refine ⟨_, ?_, (Turned.refl _).congr (fun row sm => ?_) fun row sm => ?_⟩
        · simpa only [refused, Procedure.run_done] using before
        · simp [Performed.raises, refused, Strobes.none, Except.isOk, Except.toBool]
        · simp [Performed.lowers, refused, Strobes.none, Except.isOk, Except.toBool]
      · obtain ⟨a, words', value, space, turned⟩ := turns _ _ _ _ h holds window
        refine ⟨_, space.wordAt_eq .ctrl, turned.congr (fun row sm => ?_) fun row sm => ?_⟩
        · simp [Performed.raises, value, Except.isOk, Except.toBool]
        · simp [Performed.lowers, value, Except.isOk, Except.toBool]
    · have calm : op.strobes = false := Bool.eq_false_iff.mpr strobes
      have kept := Session.keeps_ctrl (s := Session.fresh h c.dispatch) holds window polls own calm
      obtain ⟨up, down⟩ := op.raises_of_calm calm
      refine ⟨_, kept.trans before, (Turned.refl _).congr (fun row sm => ?_) fun row sm => ?_⟩
      · simp [Performed.raises, up, Strobes.none]
      · simp [Performed.lowers, down, Strobes.none]
  · have keeps := (wired.perform own performed).2
    have kept : step.machine.dispatch.register? q PioRegister.ctrl.index =
        c.dispatch.register? q PioRegister.ctrl.index :=
      keeps.register?_eq fun n touched => here touched.1.symm
    refine ⟨w, ?_, (Turned.refl _).congr (fun row sm => ?_) fun row sm => ?_⟩
    · rwa [Dispatch.wordAt_eq_register?, kept, ← Dispatch.wordAt_eq_register?]
    · simp [Performed.raises, here, Strobes.none]
    · simp [Performed.lowers, here, Strobes.none]

/-- What a run of operations does to `CTRL` of any block. -/
theorem Wired.ctrl_of_record (wired : c.Wired) (polls : Nat) {calls : List (Nat × Operation)}
    (own : ∀ call ∈ calls, call.2.namesBase = false) (k : Nat) {w : Word}
    (before : c.dispatch.wordAt k .ctrl = some w) :
    ∃ w', (c.performAll polls calls).dispatch.wordAt k .ctrl = some w' ∧
      (∀ row sm, w'.getLsbD (row.bit sm) = true ↔
        Performed.RaisedLast (c.record polls calls) k row sm ∨
        (w.getLsbD (row.bit sm) = true ∧
          ∀ e ∈ c.record polls calls, e.lowers k row sm = false)) ∧
      ∀ n, 12 ≤ n → w'.getLsbD n = w.getLsbD n := by
  -- The bits that the word starts with count as raised before all operations.
  induction calls generalizing c w with
  | nil =>
    refine ⟨w, before, fun row sm => ?_, fun _ _ => rfl⟩
    simp [Machine.record, Performed.not_raisedLast_nil]
  | cons call rest ih =>
    have own' := fun call member => own call (List.mem_cons_of_mem _ member)
    rw [Machine.performAll, List.foldl_cons, Machine.record]
    cases performed : c.perform polls call.1 call.2 with
    | none => exact ih wired own' before
    | some step =>
      have first := own call (List.mem_cons_self ..)
      obtain ⟨w', after, turned⟩ := wired.turned first performed k before
      obtain ⟨w'', final, bits, others⟩ := ih (wired.perform first performed).1 own' after
      refine ⟨w'', final, fun row sm => ?_, fun n le => (others n le).trans (turned.rest n le)⟩
      rw [bits, turned.bits, Performed.raisedLast_cons, List.forall_mem_cons, Bool.or_eq_true,
        Bool.and_eq_true, Bool.not_eq_true']
      tauto

theorem ctrl_ofCount {count : Nat} (made : ofCount count = .ok c) {k : Nat} (block : k < count) :
    c.dispatch.wordAt k .ctrl = some 0 := by
  by_cases range : 1 ≤ count ∧ count ≤ Layout.blockCount
  · have few : count = 1 ∧ k = 0 ∨ count = 2 ∧ k = 0 ∨ count = 2 ∧ k = 1 := by
      have upper : count ≤ 2 := range.2
      omega
    rcases few with ⟨rfl, rfl⟩ | ⟨rfl, rfl⟩ | ⟨rfl, rfl⟩ <;> cases made <;> rfl
  · rw [ofCount, if_neg range] at made
    cases made

/-- After any run of operations on a chip that is fresh from reset, the enabling bit of a state
machine is one exactly when an operation has enabled it and none has disabled it since. The bits of
restarts are one exactly when there was such a restart, and all other bits of `CTRL` are zero. -/
theorem enable_bits_follow_calls {count : Nat} (made : ofCount count = .ok c) (polls : Nat)
    {calls : List (Nat × Operation)} (own : ∀ call ∈ calls, call.2.namesBase = false) {k : Nat}
    (block : k < count) :
    ∃ word, (c.performAll polls calls).dispatch.wordAt k .ctrl = some word ∧
      (∀ sm : StateMachine,
        (word.getLsbD sm.val = true ↔
          ∃ earlier e later, c.record polls calls = earlier ++ e :: later ∧
            e.raises k .enable sm = true ∧ ∀ l ∈ later, l.lowers k .enable sm = false) ∧
        (word.getLsbD (4 + sm.val) = true ↔
          ∃ e ∈ c.record polls calls, e.raises k .restart sm = true) ∧
        (word.getLsbD (8 + sm.val) = true ↔
          ∃ e ∈ c.record polls calls, e.raises k .divider sm = true)) ∧
      ∀ n, 12 ≤ n → word.getLsbD n = false := by
  obtain ⟨word, found, bits, others⟩ :=
    (wired_ofCount made).ctrl_of_record polls own k (ctrl_ofCount made block)
  have told : ∀ row sm, word.getLsbD (row.bit sm) = true ↔
      Performed.RaisedLast (c.record polls calls) k row sm := by
    intro row sm
    simp [bits]
  refine ⟨word, found, fun sm => ⟨?_, ?_, ?_⟩, fun n le => ?_⟩
  · rw [← Nat.zero_add sm.val]
    exact told .enable sm
  · exact (told .restart sm).trans (Performed.raisedLast_iff (by decide))
  · exact (told .divider sm).trans (Performed.raisedLast_iff (by decide))
  · simp [others n le]

def sampleStrobes : List (Nat × Operation) :=
  [(1, .setMaskEnabled 15 true), (1, .setEnabled 2 false), (0, .setEnabled 2 true),
    (1, .restart 4), (1, .initialise 3 0 none)]

theorem enable_bits_follow_calls_sampleStrobes :
    ofCount 2 = .ok twoBlocks ∧ (∀ call ∈ sampleStrobes, call.2.namesBase = false) ∧
      (twoBlocks.performAll 1 sampleStrobes).dispatch.wordAt 1 .ctrl = some 0x883 ∧
      (∃ earlier e later, twoBlocks.record 1 sampleStrobes = earlier ++ e :: later ∧
        e.raises 1 .enable 0 = true ∧ ∀ l ∈ later, l.lowers 1 .enable 0 = false) ∧
      ¬ (∃ earlier e later, twoBlocks.record 1 sampleStrobes = earlier ++ e :: later ∧
        e.raises 1 .enable 3 = true ∧ ∀ l ∈ later, l.lowers 1 .enable 3 = false) ∧
      ∃ e ∈ twoBlocks.record 1 sampleStrobes, e.raises 1 .restart 3 = true := by
  have made : ofCount 2 = .ok twoBlocks := rfl
  have own : ∀ call ∈ sampleStrobes, call.2.namesBase = false := by decide
  have left : (twoBlocks.performAll 1 sampleStrobes).dispatch.wordAt 1 .ctrl = some 0x883 := by
    decide +kernel
  obtain ⟨word, found, bits, -⟩ := enable_bits_follow_calls made 1 own (show 1 < 2 by decide)
  cases left.symm.trans found
  exact ⟨made, own, left, (bits 0).1.mp (by decide), mt (bits 3).1.mpr (by decide),
    (bits 3).2.1.mp (by decide)⟩

end Chip

end PioBlock
