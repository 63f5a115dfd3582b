import PioBlock.Proofs.Faults
import PioBlock.Proofs.Hosting
import Mathlib.Data.LawfulXor.Basic
import Mathlib.Logic.Function.Basic

/-! Initialising a state machine, write by write. The operation comes to one list of writes through
the aliases of registers, and each write that succeeds does to the words of the block what its alias
and the kind of its register say. The words at the end are then computed, and what every write but
the first keeps holds at each moment after the first. -/

namespace PioBlock

/-- A word written to a register through one of its aliases. -/
structure AliasWrite where
  register : PioRegister
  through : Alias
  word : Word

namespace AliasWrite

def write (base : Word) (w : AliasWrite) : Word × Word :=
  (Layout.address base w.register.index ||| w.through.bits, w.word)

def apply (words : PioRegister → Word) (w : AliasWrite) : PioRegister → Word :=
  Function.update words w.register
    (w.register.kind.store (w.through.write w.word) (words w.register))

end AliasWrite

namespace Dispatch

variable {β : Type} [RegisterBlock β] [LawfulBlock β] {d : Dispatch β} {position pio : Nat}
  {base : Word} {words : PioRegister → Word}

namespace Holds

theorem aliasWrite (holds : d.Holds position pio base words) (window : Layout.IsWindow base)
    (w : AliasWrite) {answer : Except RegisterError Unit} {d' : Dispatch β}
    (written : RegisterSpace.write (w.write base).1
      (.ofAddress (w.write base).1 (w.write base).2) d = (answer, d')) :
    ((answer = .ok () ∧ d'.Holds position pio base (w.apply words)) ∨
      (∃ e, answer = .error e) ∧ d'.Holds position pio base words) ∧
    ∀ q ≠ position, d'.block? q = d.block? q := by
  have named := Layout.ofAddress_address window
    (Nat.lt_trans w.register.index_lt (by decide)) w.through
  obtain ⟨block, hosts, values⟩ := id holds
  rw [AliasWrite.write, MaskedWrite.ofAddress, named] at written
  have step := holds.write window w.register w.through (w.through.write w.word)
  rw [written] at step
  rw [hosts.write_eq window] at written
  obtain ⟨answer_eq, rfl⟩ := Prod.mk.inj written
  refine ⟨?_, fun q ne => by rw [block?, Dispatch.replace, List.getElem?_set_ne ne.symm, block?]⟩
  cases wrote : (RegisterBlock.write w.register.index (w.through.write w.word) block).1 with
  | ok _ =>
    rw [wrote] at answer_eq
    obtain ⟨words', holds', kept, stored⟩ := step
    have applied : words' = w.apply words := by
      funext r
      by_cases here : r = w.register
      · subst here
        rw [stored answer_eq.symm, AliasWrite.apply, Function.update_self]
      · rw [kept r here, AliasWrite.apply, Function.update_of_ne here]
    exact .inl ⟨answer_eq.symm, applied ▸ holds'⟩
  | error fault =>
    rw [wrote] at answer_eq
    have same := LawfulBlock.write_error _ _ block fault wrote
    have kept := LawfulBlock.sameBut_write w.register.index (w.through.write w.word) block
    refine .inr ⟨⟨_, answer_eq.symm⟩, _, hosts.replace kept (LawfulBlock.span_write ..),
      fun r => ?_⟩
    rw [same]
    exact values r

theorem aliasWrites (holds : d.Holds position pio base words) (window : Layout.IsWindow base)
    (writes : List AliasWrite) :
    (((Transaction.writeAll (writes.map (·.write base))).run.run d).value = .ok () →
      ((Transaction.writeAll (writes.map (·.write base))).run.run d).space.Holds position pio base
        (writes.foldl AliasWrite.apply words)) ∧
    ∀ q ≠ position, ((Transaction.writeAll (writes.map (·.write base))).run.run d).space.block? q =
      d.block? q := by
  induction writes generalizing d words with
  | nil => exact ⟨fun _ => holds, fun _ _ => rfl⟩
  | cons w rest ih =>
    rw [List.map_cons, Transaction.run_writeAll_cons, Procedure.run]
    cases written : RegisterSpace.write (w.write base).1
      (.ofAddress (w.write base).1 (w.write base).2) d with
    | mk answer d₁ =>
    obtain ⟨⟨rfl, holds₁⟩ | ⟨⟨e, rfl⟩, -⟩, apart⟩ := holds.aliasWrite window w written
    · exact ⟨(ih holds₁).1, fun q ne => ((ih holds₁).2 q ne).trans (apart q ne)⟩
    · exact ⟨fun made => absurd made (by simp), apart⟩

/-- What each of the writes keeps of the words holds after each of them, be it that one fails. -/
theorem moments_aliasWrites (holds : d.Holds position pio base words)
    (window : Layout.IsWindow base) {P : (PioRegister → Word) → Prop} {writes : List AliasWrite}
    (keeps : ∀ w ∈ writes, ∀ words, P words → P (w.apply words)) (start : P words) :
    ∀ moment ∈ (Transaction.writeAll (writes.map (·.write base))).run.moments d,
      ∃ words', moment.Holds position pio base words' ∧ P words' := by
  induction writes generalizing d words with
  | nil => exact fun _ none => absurd none List.not_mem_nil
  | cons w rest ih =>
    rw [List.map_cons, Transaction.run_writeAll_cons, Procedure.moments]
    cases written : RegisterSpace.write (w.write base).1
      (.ofAddress (w.write base).1 (w.write base).2) d with
    | mk answer d₁ =>
    obtain ⟨⟨rfl, holds₁⟩ | ⟨⟨e, rfl⟩, holds₁⟩, -⟩ := holds.aliasWrite window w written
    · have kept := keeps w (List.mem_cons_self ..) words start
      refine List.forall_mem_cons.mpr ⟨⟨_, holds₁, kept⟩, ih holds₁ (fun w later => ?_) kept⟩
      exact keeps w (List.mem_cons_of_mem _ later)
    · exact List.forall_mem_singleton.mpr ⟨_, holds₁, start⟩

end Holds

end Dispatch

namespace Control

def Makes (c : Control Unit) (h : Handle) (writes : List (Word × Word)) : Prop :=
  c.start h = (transact (.writeAll writes)).start h

namespace Makes

variable {c c' : Control Unit} {h : Handle} {earlier later : List (Word × Word)}

theorem followed (first : Makes c h earlier) (second : Makes c' h later) :
    Makes (do c; c') h (earlier ++ later) := by
  rw [Makes, start_bind, first, start_transact, start_transact, Transaction.writeAll_append,
    ExceptT.run_bind, Procedure.bind_assoc, Procedure.bind_assoc]
  congr 1
  funext outcome
  cases outcome with
  | error e => rfl
  | ok _ => exact second.trans (start_transact _ h)

theorem writeThrough (a : Alias) (r : PioRegister) (value : Word) :
    Makes (writeThrough a r value) h [(h.address r ||| a.bits, value)] := by
  rw [Makes, Control.writeThrough, start_access, Transaction.writeAll_singleton]
  rfl

theorem writeRegister (r : PioRegister) (value : Word) :
    Makes (writeRegister r value) h [(h.address r, value)] := by
  rw [Makes, Control.writeRegister, start_access, Transaction.writeAll_singleton]
  rfl

theorem configure (sm : StateMachine) (c : Config) :
    Makes (configure sm c) h ((configWords sm c).map fun (r, word) => (h.address r, word)) := by
  rw [Makes, Control.configure, start_bind, start_get]
  rfl

end Makes

/-- The writes that initialise a state machine: it is disabled, configured, its queues are emptied
by switching their join there and back, its flags are cleared, it is restarted and its divider,
and it is sent to its first instruction. -/
def initialWrites (sm : StateMachine) (pc : Slot) (c : Config) : List AliasWrite :=
  [⟨.ctrl, .clear, (1 : Word) <<< sm.val⟩,
    ⟨.machine sm .clkdiv, .plain, c.clkdiv⟩, ⟨.machine sm .execctrl, .plain, c.execctrl⟩,
    ⟨.machine sm .shiftctrl, .plain, c.shiftctrl⟩, ⟨.machine sm .pinctrl, .plain, c.pinctrl⟩,
    ⟨.machine sm .shiftctrl, .toggle, 0x80000000⟩, ⟨.machine sm .shiftctrl, .toggle, 0x80000000⟩,
    ⟨.fdebug, .plain, debugFlags sm⟩,
    ⟨.ctrl, .set, (1 : Word) <<< (4 + sm.val)⟩, ⟨.ctrl, .set, (1 : Word) <<< (8 + sm.val)⟩,
    ⟨.machine sm .instr, .plain, BitVec.ofNat 32 pc.val⟩]

theorem makes_initialise (sm : StateMachine) (pc : Slot) (c : Config) (h : Handle) :
    Makes (initialise sm pc c) h ((initialWrites sm pc c).map (·.write h.base)) := by
  have made : Makes (initialise sm pc c) h _ :=
    (Makes.writeThrough .clear .ctrl _).followed <| (Makes.configure sm c).followed <|
      ((Makes.writeThrough .toggle _ _).followed (Makes.writeThrough .toggle _ _)).followed <|
      (Makes.writeRegister .fdebug _).followed <| (Makes.writeThrough .set .ctrl _).followed <|
      (Makes.writeThrough .set .ctrl _).followed (Makes.writeRegister _ _)
  have enable : ∀ sm : StateMachine,
      Layout.smEnable.place (MachineSet.word sm.single) = (1 : Word) <<< sm.val := by decide
  have restart : ∀ sm : StateMachine,
      Layout.smRestart.place (MachineSet.word sm.single) = (1 : Word) <<< (4 + sm.val) := by decide
  have divider : ∀ sm : StateMachine,
      Layout.clkdivRestart.place (MachineSet.word sm.single) = (1 : Word) <<< (8 + sm.val) := by
    decide
  have join : Layout.fjoinRx.mask = 0x80000000 := by decide
  have jump : ∀ pc : Slot, (Instruction.jmp pc.val).setWidth 32 = BitVec.ofNat 32 pc.val := by
    decide
  rw [enable, restart, divider, join, jump] at made
  simp only [initialWrites, List.map_cons, List.map_nil, AliasWrite.write, Layout.or_bits_plain]
  exact made

def initialised (words : PioRegister → Word) (sm : StateMachine) (pc : Slot) (c : Config) :
    PioRegister → Word
  | .ctrl =>
    (words .ctrl &&& ~~~((1 : Word) <<< sm.val)) ||| (1 : Word) <<< (4 + sm.val) |||
      (1 : Word) <<< (8 + sm.val)
  | .fdebug =>
    words .fdebug &&& ~~~((1 : Word) <<< sm.val ||| (1 : Word) <<< (8 + sm.val) |||
      (1 : Word) <<< (16 + sm.val) ||| (1 : Word) <<< (24 + sm.val))
  | .machine other register =>
    if other = sm then
      match register with
      | .clkdiv => c.clkdiv
      | .execctrl => c.execctrl
      | .shiftctrl => c.shiftctrl
      | .pinctrl => c.pinctrl
      | .instr => BitVec.ofNat 32 pc.val
      | .addr => words (.machine other .addr)
    else words (.machine other register)
  | r => words r

theorem debugFlags_eq (sm : StateMachine) :
    debugFlags sm = (1 : Word) <<< sm.val ||| (1 : Word) <<< (8 + sm.val) |||
      (1 : Word) <<< (16 + sm.val) ||| (1 : Word) <<< (24 + sm.val) := by
  revert sm
  decide

theorem foldl_initialWrites (sm : StateMachine) (pc : Slot) (c : Config)
    (words : PioRegister → Word) :
    (initialWrites sm pc c).foldl AliasWrite.apply words = initialised words sm pc c := by
  funext r
  simp only [initialWrites, List.foldl_cons, List.foldl_nil, AliasWrite.apply]
  cases r with
  | ctrl =>
    simp [PioRegister.kind, RegisterKind.store, Alias.apply_write_set, Alias.apply_write_clear,
      initialised]
  | fdebug =>
    simp [PioRegister.kind, RegisterKind.store, Alias.apply_write_plain, initialised,
      debugFlags_eq]
  | machine other register =>
    by_cases here : other = sm
    · subst here
      cases register with
      | shiftctrl =>
        simp [PioRegister.kind, MachineRegister.kind, RegisterKind.store, Alias.apply_write_plain,
          Alias.apply_write_toggle, initialised]
      | _ =>
        simp [PioRegister.kind, MachineRegister.kind, RegisterKind.store, Alias.apply_write_plain,
          initialised]
    · simp [initialised, here]
  | _ => simp [initialised]

theorem disabled_apply {sm : StateMachine} {w : AliasWrite} {words : PioRegister → Word}
    (spares : w.register = .ctrl → w.through = .set ∧ w.word.getLsbD sm.val = false)
    (disabled : (words .ctrl).getLsbD sm.val = false) :
    (w.apply words .ctrl).getLsbD sm.val = false := by
  obtain ⟨register, through, word⟩ := w
  by_cases here : register = .ctrl
  · obtain ⟨rfl, zero⟩ := spares here
    subst here
    simp only at zero
    simp [AliasWrite.apply, PioRegister.kind, RegisterKind.store, Alias.apply_write_set, disabled,
      zero]
  · rw [AliasWrite.apply, Function.update_of_ne (Ne.symm here)]
    exact disabled

theorem spares_initialWrites (sm : StateMachine) (pc : Slot) (c : Config) :
    ∀ w ∈ (initialWrites sm pc c).tail,
      w.register = .ctrl → w.through = .set ∧ w.word.getLsbD sm.val = false := by
  simp [initialWrites]

theorem disabled_first (sm : StateMachine) (words : PioRegister → Word) :
    ((⟨.ctrl, .clear, (1 : Word) <<< sm.val⟩ : AliasWrite).apply words .ctrl).getLsbD sm.val =
      false := by
  simp [AliasWrite.apply, PioRegister.kind, RegisterKind.store, Alias.apply_write_clear]

end Control

open Control

section Hosted

variable {β : Type} [RegisterBlock β]

/-- What initialising a state machine does on a bus where any access may fail. The writes are made
in order up to the first that fails, which is the one told of. If none fails, the words of the block
are those of an initialised state machine; from the moment on that the first one succeeded, the
state machine is disabled; and no other block notices. -/
structure Initialises (d : Dispatch β) (position : Nat) (h : Handle) (words : PioRegister → Word)
    (sm : StateMachine) (pc : Slot) (c : Config)
    (call : Procedure (Except Failure Answer × Handle)) : Prop where
  outcome : (call.run d).value = (Access.verdict (call.run d).trace, h)
  order : Access.Attempts ((initialWrites sm pc c).map (·.write h.base)) (call.run d).trace
  words : (call.run d).value.1 = .ok .done →
    ∀ r, (call.run d).space.wordAt position r = some (initialised words sm pc c r)
  elsewhere : ∀ q ≠ position, (call.run d).space.block? q = d.block? q
  disabled : 1 < (call.run d).trace.length → ∀ moment ∈ (call.run d).space :: call.moments d,
    ∃ ctrl, moment.wordAt position .ctrl = some ctrl ∧ ctrl.getLsbD sm.val = false

variable [LawfulBlock β] {d : Dispatch β} {position pio : Nat} {h : Handle}
  {words : PioRegister → Word}

theorem disabled_moments (holds : d.Holds position pio h.base words)
    (window : Layout.IsWindow h.base) (sm : StateMachine) (pc : Slot) (c : Config)
    (reached : 1 < ((Transaction.writeAll
      ((initialWrites sm pc c).map (·.write h.base))).run.run d).trace.length) :
    ∀ moment ∈ (Transaction.writeAll ((initialWrites sm pc c).map (·.write h.base))).run.moments d,
      ∃ ctrl, moment.wordAt position .ctrl = some ctrl ∧ ctrl.getLsbD sm.val = false := by
  have spares := spares_initialWrites sm pc c
  rw [initialWrites, List.tail_cons] at spares
  rw [initialWrites, List.map_cons, Transaction.run_writeAll_cons, Procedure.run] at reached
  rw [initialWrites, List.map_cons, Transaction.run_writeAll_cons, Procedure.moments]
  generalize written : RegisterSpace.write _ _ d = answered at reached ⊢
  obtain ⟨answer, d₁⟩ := answered
  obtain ⟨⟨rfl, holds₁⟩ | ⟨⟨e, rfl⟩, -⟩, -⟩ := holds.aliasWrite window _ written
  · have start := disabled_first sm words
    have later := holds₁.moments_aliasWrites window
      (P := fun words => (words .ctrl).getLsbD sm.val = false)
      (fun w member words => disabled_apply (spares w member)) start
    refine List.forall_mem_cons.mpr ⟨⟨_, holds₁.wordAt_eq .ctrl, start⟩, fun moment member => ?_⟩
    obtain ⟨words', holds', disabled⟩ := later moment member
    exact ⟨_, holds'.wordAt_eq .ctrl, disabled⟩
  · exact absurd reached (by simp)

/-- Initialising a state machine brings it to one known state, whatever the words of its block were,
and never lets it run on the way, once it was stopped. -/
theorem initialise_initialises (holds : d.Holds position pio h.base words)
    (window : Layout.IsWindow h.base) (sm : StateMachine) (pc : Slot) (config : Option Config)
    (polls : Nat) :
    Initialises d position h words sm pc (config.getD .reset)
      (((Operation.initialise sm.val pc.val config).perform polls).start h) := by
  generalize made : config.getD .reset = c
  have performed : (Operation.initialise sm.val pc.val config).perform polls =
      Operation.acting (initialise sm pc c) := by
    rw [Operation.perform, Operation.machine_val, pure_bind, Operation.below32_val, pure_bind, made]
  have makes := makes_initialise sm pc c h
  have ran := run_acting makes d
  have attempted := Transaction.attempts_writeAll ((initialWrites sm pc c).map (·.write h.base)) d
  have effect := holds.aliasWrites window (initialWrites sm pc c)
  rw [performed]
  refine ⟨?outcome, ?order, ?words, ?elsewhere, ?disabled⟩
  case outcome => rw [ran, Access.verdict_eq, attempted.2]
  case order => rw [ran]; exact attempted.1
  case words =>
    rw [ran]
    intro done r
    have all_made : ((Transaction.writeAll
        ((initialWrites sm pc c).map (·.write h.base))).run.run d).value = .ok () := by
      generalize ((Transaction.writeAll _).run.run d).value = value at done
      cases value with
      | ok _ => rfl
      | error e => cases done
    rw [(effect.1 all_made).wordAt_eq, foldl_initialWrites]
  case elsewhere => rw [ran]; exact effect.2
  case disabled =>
    intro reached
    have last := Procedure.space_mem_moments (List.ne_nil_of_length_pos (Nat.zero_lt_of_lt reached))
    rw [ran] at reached
    have moments := disabled_moments holds window sm pc c reached
    rw [← moments_acting makes] at moments
    exact List.forall_mem_cons.mpr ⟨moments _ last, moments⟩

end Hosted

/-! The last write of all, which is the first to `INSTR` of state machine 2, fails. -/

def sampleHalted : BenchBlock :=
  (BenchBlock.plain (RegisterFile.pioAt 1 0x50300000)).plan ⟨66, .write, 0, 1, "stuck"⟩

theorem initialise_initialises_sampleHalted :
    ∃ words, (⟨[sampleHalted]⟩ : Dispatch BenchBlock).Holds 0 1 0x50300000 words ∧
      Layout.IsWindow 0x50300000 ∧
      Initialises ⟨[sampleHalted]⟩ 0 (Handle.at_ 1 0x50300000) words 2 5 .reset
        (((Operation.initialise 2 5 none).perform 1).start (Handle.at_ 1 0x50300000)) := by
  have hosts : (⟨[sampleHalted]⟩ : Dispatch BenchBlock).Hosts 0 1 0x50300000 sampleHalted :=
    Dispatch.hosts_alone rfl rfl
  obtain ⟨words, holds⟩ := hosts.holds
  exact ⟨words, holds, by decide,
    initialise_initialises (h := Handle.at_ 1 0x50300000) holds (by decide) 2 5 none 1⟩

end PioBlock
