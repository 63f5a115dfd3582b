import PioBlock.Proofs.Installation
import PioBlock.Proofs.Isolation
import PioBlock.Proofs.Settings.Lenses

/-! Settings made in place. A helper makes the setting on a scratch configuration and writes the
word of it under the mask of the aspect, or it puts the one field in place itself. Either way the
register is left with what the setter makes of the word that was there, so the helper does to a
state machine what reading its configuration, applying the setter and writing it back would do. -/

namespace PioBlock

open Control

namespace ConfigWord

def all : List ConfigWord := [.clkdiv, .execctrl, .shiftctrl, .pinctrl]

theorem mem_all (w : ConfigWord) : w ∈ all := by cases w <;> decide

def register : ConfigWord → MachineRegister
  | .clkdiv => .clkdiv
  | .execctrl => .execctrl
  | .shiftctrl => .shiftctrl
  | .pinctrl => .pinctrl

theorem kind_machine (sm : StateMachine) (w : ConfigWord) :
    (PioRegister.machine sm w.register).kind = .readWrite := by cases w <;> rfl

theorem machine_injective {sm : StateMachine} {w w' : ConfigWord}
    (same : PioRegister.machine sm w.register = .machine sm w'.register) : w = w' := by
  cases w <;> cases w' <;> first | rfl | cases same

end ConfigWord

namespace Config

theorem configWords_eq (sm : StateMachine) (c : Config) :
    configWords sm c = ConfigWord.all.map fun w => (.machine sm w.register, c.word w) := rfl

theorem word_eq_update {c : Config} {sm : StateMachine} {w : ConfigWord}
    {words : PioRegister → Word}
    (known : ∀ w' ≠ w, c.word w' = words (.machine sm w'.register)) (w' : ConfigWord) :
    c.word w' = Function.update words (.machine sm w.register) (c.word w)
      (.machine sm w'.register) := by
  by_cases same : w' = w
  · rw [same, Function.update_self]
  · rw [known w' same, Function.update_of_ne fun e => same (ConfigWord.machine_injective e)]

theorem word_putAll_of_ne {stores : List (ConfigField × Word)} {w : ConfigWord}
    (elsewhere : ∀ store ∈ stores, store.1.word ≠ w) (c : Config) :
    (c.putAll stores).word w = c.word w := by
  apply BitVec.eq_of_getLsbD_eq
  intro i _
  refine bit_putAll_of_not_covers (fun store member => ?_) c
  rw [ConfigField.covers, decide_eq_false (elsewhere store member), Bool.false_and]

end Config

def Aspect.mask (a : Aspect) (w : ConfigWord) : Word :=
  a.fields.foldr (fun f mask => if f.word = w then f.field.mask ||| mask else mask) 0

theorem Aspect.getLsbD_mask (a : Aspect) (w : ConfigWord) (i : Nat) :
    (a.mask w).getLsbD i = a.covers w i := by
  rw [mask, covers]
  induction a.fields with
  | nil => exact BitVec.getLsbD_zero
  | cons f rest ih =>
    rw [List.foldr_cons, List.any_cons, ← ih, ConfigField.covers]
    by_cases here : f.word = w
    · rw [if_pos here, BitVec.getLsbD_or, Field.getLsbD_mask, decide_eq_true here, Bool.true_and]
    · rw [if_neg here, decide_eq_false here, Bool.false_and, Bool.false_or]

namespace Setting

/-- The masked write makes the setting in one word of a configuration, whatever that holds, and the
setting is about no other word. -/
structure MadeBy (s : Setting) (w : ConfigWord) (m : MaskedWrite) : Prop where
  apply_word : ∀ c : Config, m.apply (c.word w) = (c.putAll s.stores).word w
  word_eq : ∀ (c : Config), ∀ w' ≠ w, (c.putAll s.stores).word w' = c.word w'

theorem word_putAll_stores_of_ne {s : Setting} {w w' : ConfigWord}
    (lone : ∀ f ∈ s.aspect.fields, f.word = w) (ne : w' ≠ w) (c : Config) :
    (c.putAll s.stores).word w' = c.word w' :=
  Config.word_putAll_of_ne (fun _ stored here =>
    ne (here.symm.trans (lone _ (mem_fields_of_mem_stores stored)))) c

/-- What the scratch configuration holds outside the aspect does not pass the mask, and within the
aspect the setter leaves the same bits in every configuration. -/
theorem madeBy_scratch {s : Setting} {w : ConfigWord} (lone : ∀ f ∈ s.aspect.fields, f.word = w)
    (scratch : Config) :
    s.MadeBy w ⟨(scratch.putAll s.stores).word w, s.aspect.mask w, false⟩ where
  apply_word c := by
    apply BitVec.eq_of_getLsbD_eq
    intro i _
    rw [MaskedWrite.getLsbD_apply, Aspect.getLsbD_mask]
    cases inside : s.aspect.covers w i with
    | false => exact (bit_putAll inside c).symm
    | true =>
      obtain ⟨f, listed, covered⟩ := List.any_eq_true.mp inside
      rw [← stores_fst] at listed
      obtain ⟨store, stored, rfl⟩ := List.mem_map.mp listed
      have held := get_putAll_stores s scratch store stored
      have held' := get_putAll_stores s c store stored
      rw [if_pos rfl, if_neg Bool.false_ne_true, ConfigField.getLsbD_of_covers covered,
        ConfigField.getLsbD_of_covers covered, held, held']
  word_eq c _ ne := word_putAll_stores_of_ne lone ne c

theorem madeBy_field {s : Setting} {f : ConfigField} {v : Word} (stores : s.stores = [(f, v)]) :
    s.MadeBy f.word (.field f.field v) where
  apply_word c := by
    rw [MaskedWrite.apply_field, stores, Config.putAll_cons]
    exact ((ConfigField.word_put f v c f.word).trans (if_pos rfl)).symm
  word_eq c _ ne := by
    refine Config.word_putAll_of_ne (fun store member here => ne ?_) c
    rw [stores, List.mem_singleton] at member
    rw [← here, member]

end Setting

namespace Operation

/-- The setting that an operation makes in place, and the state machine it names. -/
def adjusts? : Operation → Option (Nat × Setting)
  | .adjustWrap sm target wrap => some (sm, .wrap target wrap)
  | .adjustOutPins sm base count => some (sm, .outPins base count)
  | .adjustSetPins sm base count => some (sm, .setPins base count)
  | .adjustInPins sm base => some (sm, .inPins base)
  | .adjustSidesetPins sm base => some (sm, .sidesetPins base)
  | .adjustClkdiv sm int frac => some (sm, .clkdivIntFrac int frac)
  | _ => none

/-- A setting out of range is refused without any access, any other is made by one masked write. -/
def Adjusts (control : Control Answer) (sm : StateMachine) (s : Setting) : Prop :=
  (¬ s.InRange ∧ ∀ h, ∃ f, control.start h = .done (.error f, h)) ∨
  (s.InRange ∧ ∃ w m, s.MadeBy w m ∧ ∀ h, control.start h =
    .write (h.address (.machine sm w.register)) m fun answer =>
      .done ((answer.mapError (.error ∘ .register)).map fun _ => .done, h))

theorem start_adjust (sm : StateMachine) (r : MachineRegister) (bits mask : Word) (h : Handle) :
    (acting (adjust sm r bits mask)).start h =
      .write (h.address (.machine sm r)) ⟨bits, mask, false⟩ fun answer =>
        .done ((answer.mapError (.error ∘ .register)).map fun _ => .done, h) := by
  have changed : (adjust sm r bits mask).start h =
      .write (h.address (.machine sm r)) ⟨bits, mask, false⟩ fun answer =>
        .done (answer.mapError (.error ∘ .register), h) := by
    rw [adjust, changeRegister, start_access]
    exact start_transact _ _
  rw [acting, start_bind, changed, Procedure.write_bind]
  congr 1
  funext answer
  cases answer <;> rfl

variable {s : Setting} (sm : StateMachine)

theorem adjusts_scratch {a : Aspect} {w : ConfigWord} {mask : Word} (about : s.aspect = a)
    (lone : ∀ f ∈ a.fields, f.word = w) (masked : a.mask w = mask) :
    Adjusts (acting do adjust sm w.register ((← scratch s).word w) mask) sm s := by
  subst about
  by_cases inside : s.InRange
  · refine Or.inr ⟨inside, w, _, Setting.madeBy_scratch lone .reset, fun h => ?_⟩
    rw [scratch, Setting.apply_of_inRange inside, masked]
    exact start_adjust sm w.register _ mask h
  · obtain ⟨e, refused⟩ := Setting.apply_of_not_inRange inside
    refine Or.inl ⟨inside, fun h => ⟨.error (.config e), ?_⟩⟩
    rw [scratch, refused]
    rfl

theorem adjusts_below32 {f : ConfigField} {base : Nat} (range : s.InRange ↔ base ≤ 31)
    (stores : s.stores = [(f, Config.number base)]) :
    Adjusts (do
      let base ← below32 .pin base
      acting (adjust sm f.word.register (f.field.place (BitVec.ofNat 32 base.val)) f.field.mask))
      sm s := by
  by_cases small : base < 32
  · refine Or.inr ⟨range.mpr (Nat.le_of_lt_succ small), f.word, _, Setting.madeBy_field stores,
      fun h => ?_⟩
    rw [below32, dif_pos small, pure_bind]
    exact start_adjust sm f.word.register _ _ h
  · refine Or.inl ⟨fun inside => small (Nat.lt_succ_of_le (range.mp inside)), fun h =>
      ⟨.error (.argument (.pin base)), ?_⟩⟩
    rw [below32, dif_neg small]
    rfl

theorem adjusts_perform {op : Operation} (about : op.adjusts? = some (sm.val, s)) (polls : Nat) :
    Adjusts (op.perform polls) sm s := by
  cases op <;> cases about <;> rw [perform, machine_val, pure_bind]
  case adjustWrap target wrap =>
    exact adjusts_scratch (a := .wrap) (w := .execctrl) sm rfl (by decide) (by decide)
  case adjustOutPins base count =>
    exact adjusts_scratch (a := .outPins) (w := .pinctrl) sm rfl (by decide) (by decide)
  case adjustSetPins base count =>
    exact adjusts_scratch (a := .setPins) (w := .pinctrl) sm rfl (by decide) (by decide)
  case adjustInPins base =>
    exact adjusts_below32 (f := ⟨.pinctrl, Layout.inBase⟩) sm Iff.rfl rfl
  case adjustSidesetPins base =>
    exact adjusts_below32 (f := ⟨.pinctrl, Layout.sidesetBase⟩) sm Iff.rfl rfl
  case adjustClkdiv int frac =>
    exact adjusts_scratch (a := .clkdiv) (w := .clkdiv) sm rfl (by decide) (by decide)

end Operation

namespace Dispatch

variable {d : Dispatch RegisterFile} {position pio : Nat} {base : Word}
  {words : PioRegister → Word} {sm : StateMachine}

def configAt (d : Dispatch RegisterFile) (position : Nat) (sm : StateMachine) : Option Config := do
  return ⟨← d.wordAt position (.machine sm .clkdiv), ← d.wordAt position (.machine sm .execctrl),
    ← d.wordAt position (.machine sm .shiftctrl), ← d.wordAt position (.machine sm .pinctrl)⟩

theorem storeAt_self {index : Nat} {r : Register} (h : d.register? position index = some r) :
    d.storeAt position index r.value = d := by
  obtain ⟨f, at_position, at_index, stored⟩ := storeAt_of_register? h r.value
  obtain ⟨here, same⟩ := List.getElem?_eq_some_iff.mp at_position
  obtain ⟨there, same'⟩ := List.getElem?_eq_some_iff.mp at_index
  have kept : f.registers.set index { r with value := r.value } = f.registers := by
    rw [← same', List.set_getElem_self]
  rw [stored, kept, replace, ← same, List.set_getElem_self]

namespace Holds

theorem configAt_eq (holds : d.Holds position pio base words) (sm : StateMachine) :
    ∃ config, d.configAt position sm = some config ∧
      ∀ w, config.word w = words (.machine sm w.register) := by
  simp only [configAt, holds.wordAt_eq]
  exact ⟨_, rfl, fun w => by cases w <;> rfl⟩

theorem write_config (holds : d.Holds position pio base words) (window : Layout.IsWindow base)
    (sm : StateMachine) (w : ConfigWord) (m : MaskedWrite) :
    RegisterSpace.write (Layout.address base (PioRegister.machine sm w.register).index) m d =
      (.ok (), d.storeAt position (PioRegister.machine sm w.register).index
        (m.apply (words (.machine sm w.register)))) := by
  have step := holds.write_eq window (.machine sm w.register) .plain m
  rwa [Layout.or_bits_plain, w.kind_machine sm] at step

theorem writeAll_lone (holds : d.Holds position pio base words) (window : Layout.IsWindow base)
    {r : PioRegister} {value : Word} {stores : List (PioRegister × Word)}
    (kinds : ∀ store ∈ stores, store.1.kind = .readWrite)
    (known : ∀ store ∈ stores, store.2 = Function.update words r value store.1) :
    ((Transaction.writeAll (stores.map fun store =>
      (Layout.address base store.1.index, store.2))).run.run d).space =
        if r ∈ stores.map Prod.fst then d.storeAt position r.index value else d := by
  induction stores generalizing d words with
  | nil => rfl
  | cons store rest ih =>
    obtain ⟨kind, kinds⟩ := List.forall_mem_cons.mp kinds
    obtain ⟨first, known⟩ := List.forall_mem_cons.mp known
    rw [List.map_cons, Transaction.run_writeAll_cons]
    simp only [Procedure.run, holds.writeWord_eq window kind, List.map_cons, List.mem_cons]
    by_cases here : store.1 = r
    · -- Wherever the rest stores the word again, it is there by now.
      have holds' := holds.storeAt r value
      rw [here, Function.update_self] at first
      have again := ih holds' kinds fun store member => by
        rw [Function.update_idem]
        exact known store member
      have same := storeAt_self (holds'.register?_eq r)
      simp only [Function.update_self] at same
      rw [here, first, again, same, ite_self, if_pos (Or.inl rfl)]
    · rw [Function.update_of_ne here] at first
      have same := storeAt_self (holds.register?_eq store.1)
      simp only [← first] at same
      rw [same, ih holds kinds known]
      simp only [Ne.symm here, false_or]

theorem writeAll_config (holds : d.Holds position pio base words) (window : Layout.IsWindow base)
    {config : Config} {w : ConfigWord}
    (known : ∀ w' ≠ w, config.word w' = words (.machine sm w'.register)) :
    ((Transaction.writeAll ((configWords sm config).map fun store =>
      (Layout.address base store.1.index, store.2))).run.run d).space =
        d.storeAt position (PioRegister.machine sm w.register).index (config.word w) := by
  have listed : PioRegister.machine sm w.register ∈ (configWords sm config).map Prod.fst := by
    rw [Config.configWords_eq, List.map_map]
    exact List.mem_map.mpr ⟨w, w.mem_all, rfl⟩
  have kinds : ∀ store ∈ configWords sm config, store.1.kind = .readWrite := by
    rw [Config.configWords_eq]
    exact List.forall_mem_map.mpr fun w' _ => w'.kind_machine sm
  have words_eq : ∀ store ∈ configWords sm config, store.2 =
      Function.update words (.machine sm w.register) (config.word w) store.1 := by
    rw [Config.configWords_eq]
    exact List.forall_mem_map.mpr fun w' _ => Config.word_eq_update known w'
  rw [holds.writeAll_lone window kinds words_eq, if_pos listed]

theorem configAt_storeAt (holds : d.Holds position pio base words) {config : Config}
    {w : ConfigWord} (known : ∀ w' ≠ w, config.word w' = words (.machine sm w'.register)) :
    (d.storeAt position (PioRegister.machine sm w.register).index (config.word w)).configAt
      position sm = some config := by
  obtain ⟨config', found, held⟩ :=
    (holds.storeAt (.machine sm w.register) (config.word w)).configAt_eq sm
  refine found.trans (congrArg some (Config.eq_of_word_eq fun w' => ?_))
  rw [held, ← Config.word_eq_update known]

end Holds

end Dispatch

namespace Chip

def storeConfig (c : Chip) (k : Nat) (sm : StateMachine) (w : ConfigWord) (value : Word) : Chip :=
  { c with dispatch := c.dispatch.storeAt k (PioRegister.machine sm w.register).index value }

variable {c : Chip} {k : Nat} {h : Handle} {sm : StateMachine} {s : Setting}

section Perform

variable {words : PioRegister → Word} (at_k : c.handles[k]? = some h)
include at_k

theorem perform_of_run {polls : Nat} {op : Operation} {outcome : Except Failure Answer}
    {space : Dispatch RegisterFile}
    (ended : (((op.perform polls).start h).run c.dispatch).value = (outcome, h))
    (left : (((op.perform polls).start h).run c.dispatch).space = space) :
    ∃ trace, c.perform polls k op = some ⟨outcome, { c with dispatch := space }, trace⟩ := by
  obtain ⟨inside, same⟩ := List.getElem?_eq_some_iff.mp at_k
  have kept : c.handles.set k h = c.handles := by rw [← same, List.set_getElem_self]
  refine ⟨(((op.perform polls).start h).run c.dispatch).trace, ?_⟩
  rw [Machine.perform, at_k, Option.map_some]
  simp only [ended, left, kept]

variable (holds : c.dispatch.Holds k k h.base words) (window : Layout.IsWindow h.base)
include holds window

theorem perform_adjust {op : Operation} (about : op.adjusts? = some (sm.val, s)) (polls : Nat) :
    (¬ s.InRange ∧ ∃ f trace, c.perform polls k op = some ⟨.error f, c, trace⟩) ∨
    (s.InRange ∧ ∃ w m trace, s.MadeBy w m ∧ c.perform polls k op = some ⟨.ok .done,
      c.storeConfig k sm w (m.apply (words (.machine sm w.register))), trace⟩) := by
  obtain ⟨outside, refused⟩ | ⟨inside, w, m, made, written⟩ := op.adjusts_perform sm about polls
  · obtain ⟨f, started⟩ := refused h
    have run : ((op.perform polls).start h).run c.dispatch = ⟨(.error f, h), c.dispatch, []⟩ := by
      rw [started, Procedure.run_done]
    obtain ⟨trace, performed⟩ :=
      perform_of_run at_k (congrArg Run.value run) (congrArg Run.space run)
    exact Or.inl ⟨outside, f, trace, performed⟩
  · have step := holds.write_config window sm w m
    have run := congrArg (Procedure.run · c.dispatch) (written h)
    simp only [Procedure.run, Handle.address, step] at run
    obtain ⟨trace, performed⟩ :=
      perform_of_run at_k (congrArg Run.value run) (congrArg Run.space run)
    exact Or.inr ⟨inside, w, m, trace, made, performed⟩

theorem perform_configure_of_word_eq {config : Config} {w : ConfigWord}
    (known : ∀ w' ≠ w, config.word w' = words (.machine sm w'.register)) (polls : Nat) :
    ∃ trace, c.perform polls k (.configure sm.val config) =
      some ⟨.ok .done, c.storeConfig k sm w (config.word w), trace⟩ := by
  have value : ((Session.fresh h c.dispatch).configuring sm config).value = .ok () :=
    holds.writeAll_value_eq_ok window (configWords sm config)
  have space : ((Session.fresh h c.dispatch).configuring sm config).space = _ :=
    holds.writeAll_config window known
  have performed := (Session.fresh h c.dispatch).perform_configure polls sm config
  simp only [value, space] at performed
  exact perform_of_run at_k (Prod.ext (congrArg Event.outcome performed)
    (congrArg (fun e => e.after.handle) performed)) (congrArg (fun e => e.after.space) performed)

end Perform

/-- A helper succeeds just when the setter accepts its arguments, on whatever configuration the
registers hold. It then leaves the machine that writing the changed configuration back would leave,
in which nothing but the words of that configuration is other than before. A refused helper leaves
the machine as it was. -/
theorem adjust_eq_configure (reachable : c.Reachable) (at_k : c.handles[k]? = some h)
    (polls : Nat) {op : Operation} (about : op.adjusts? = some (sm.val, s)) :
    ∃ config step, c.dispatch.configAt k sm = some config ∧ c.perform polls k op = some step ∧
      ((∃ answer, step.outcome = .ok answer) ↔ ∃ config', s.apply config = .ok config') ∧
      (∀ config', s.apply config = .ok config' →
        step.machine.dispatch.configAt k sm = some config' ∧
        (∃ whole, c.perform polls k (.configure sm.val config') = some whole ∧
          whole.outcome = .ok .done ∧ step.machine = whole.machine) ∧
        ∀ q j, (∀ w : ConfigWord, (q, j) ≠ (k, (PioRegister.machine sm w.register).index)) →
          step.machine.dispatch.register? q j = c.dispatch.register? q j) ∧
      ∀ e, s.apply config = .error e → step.machine = c := by
  obtain ⟨window, block, hosts⟩ := reachable.wired.hosts at_k
  obtain ⟨words, holds⟩ := hosts.holds
  obtain ⟨config, found, held⟩ := holds.configAt_eq sm
  obtain ⟨outside, f, trace, performed⟩ | ⟨inside, w, m, trace, made, performed⟩ :=
    perform_adjust at_k holds window about polls
  · obtain ⟨e, refused⟩ := Setting.apply_of_not_inRange outside
    refine ⟨config, _, found, performed, ⟨?_, ?_⟩, ?_, fun _ _ => rfl⟩
    · rintro ⟨answer, ⟨⟩⟩
    · rintro ⟨config', applied⟩
      cases (refused config).symm.trans applied
    · intro config' applied
      cases (refused config).symm.trans applied
  · have applied := Setting.apply_of_inRange inside config
    have known : ∀ w' ≠ w, (config.putAll s.stores).word w' = words (.machine sm w'.register) :=
      fun w' ne => (made.word_eq config w' ne).trans (held w')
    rw [← held, made.apply_word] at performed
    refine ⟨config, _, found, performed, ⟨fun _ => ⟨_, applied⟩, fun _ => ⟨_, rfl⟩⟩, ?_, ?_⟩
    · intro config' applied'
      cases applied.symm.trans applied'
      obtain ⟨_, whole⟩ := perform_configure_of_word_eq at_k holds window known polls
      exact ⟨holds.configAt_storeAt known, ⟨_, whole, rfl, rfl⟩, fun q j apart =>
        Dispatch.register?_storeAt_of_ne (holds.register?_eq _) _ (apart w)⟩
    · intro e refused
      cases applied.symm.trans refused

theorem adjust_eq_configure_twoBlocks :
    ∃ step, twoBlocks.perform 1 1 (.adjustOutPins 2 3 32) = some step ∧
      step.machine.dispatch.configAt 1 2 = some { Config.reset with pinctrl := 0x16000003 } := by
  have made : ofCount 2 = .ok twoBlocks := rfl
  have about : (Operation.adjustOutPins 2 3 32).adjusts? =
      some ((2 : StateMachine).val, .outPins 3 32) := rfl
  have second : twoBlocks.handles[1]? = some (Handle.at_ 1 0x50300000) := rfl
  obtain ⟨config, step, found, performed, -, left, -⟩ :=
    adjust_eq_configure (.made made) second 1 about
  have fresh : twoBlocks.dispatch.configAt 1 2 = some .reset := rfl
  cases fresh.symm.trans found
  exact ⟨step, performed, (left _ rfl).1⟩

end Chip

end PioBlock
