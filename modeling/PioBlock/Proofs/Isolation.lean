import PioBlock.Machine
import PioBlock.Proofs.CodeMemory
import PioBlock.Proofs.Session
import PioBlock.Proofs.Touching

/-! Isolation. An operation touches bits of what it is about, in the block of its handle, and no
others. Over any run of operations, then, other blocks and other state machines keep what is theirs,
read-only registers keep their words, and no flag is set. -/

namespace PioBlock

open Control

/-- Whether the operation is made on a block that the caller names, past the handle's own. -/
def Operation.namesBase : Operation → Bool
  | .loadInto .. | .clearIn _ => true
  | _ => false

/-- The call left the base of the handle, and all bits but those that it may touch in the block at
the position. -/
structure Event.Confined (position : Nat) (e : Event (Dispatch RegisterFile)) : Prop where
  base_eq : e.after.handle.base = e.before.handle.base
  keeps : e.before.space.Keeps
    (Dispatch.bitsAt position fun r bit => e.call.subject.Touches e.outcome r bit) e.after.space

namespace Session

variable {s : Session (Dispatch RegisterFile)} {position pio : Nat} {words : PioRegister → Word}
  (holds : s.space.Holds position pio s.handle.base words)
  (window : Layout.IsWindow s.handle.base) (polls : Nat)
include holds window

theorem keeps_writeAll {may : PioRegister → Nat → Prop} {stores : List (PioRegister × Word)}
    (inside : ∀ store ∈ stores, ∀ bit, may store.1 bit) :
    s.space.Keeps (Dispatch.bitsAt position may) ((Transaction.writeAll (stores.map fun store =>
      (Layout.address s.handle.base store.1.index, store.2))).run.run s.space).space := by
  have within : (Transaction.writeAll (stores.map fun store =>
      (Layout.address s.handle.base store.1.index, store.2))).Respects
        ((Scope.under may).Reads s.handle.base) ((Scope.under may).Writes s.handle.base) := by
    refine Transaction.respects_writeAll fun write member => ?_
    obtain ⟨store, listed, rfl⟩ := List.mem_map.mp member
    exact Scope.writes_plain (Scope.writes_under (inside store listed) _ _)
  exact holds.keeps_run window within

theorem confined_load (p : Program) (offset : Option Nat) :
    (s.perform polls (.load p offset)).Confined position := by
  obtain ⟨f, e⟩ | ⟨found, -, ⟨f, failed, e⟩ | ⟨-, e⟩⟩ := s.perform_load polls p offset
  · rw [e]
    exact ⟨rfl, .refl _ _⟩
  · -- The writes cannot fail, because the block is a register file served as it is.
    have done := holds.writeAll_value_eq_ok window (p.stores found.offset)
    rw [writing, Program.loadWrites_eq, done] at failed
    cases failed
  · rw [e]
    refine ⟨rfl, ?_⟩
    dsimp only
    rw [writing, Program.loadWrites_eq]
    refine keeps_writeAll holds window fun store member bit => ?_
    obtain ⟨⟨i, n⟩, listed, rfl⟩ := List.mem_map.mp member
    have at_n := List.mem_zipIdx_iff_getElem?.mp listed
    exact ⟨found.offset, _, rfl, Program.mem_slotSet_of_getElem? found.offset at_n, rfl⟩

theorem confined_clear : (s.perform polls .clear).Confined position := by
  have cleared : s.space.Keeps (Dispatch.bitsAt position fun r _ => ∃ slot, r = .instrMem slot)
      s.clearing.space := by
    rw [clearing, clearWrites_eq]
    refine keeps_writeAll holds window fun store member bit => ?_
    obtain ⟨slot, -, rfl⟩ := List.mem_map.mp member
    exact ⟨slot, rfl⟩
  rw [perform_clear]
  cases s.clearing.value with
  | error f => exact ⟨rfl, cleared⟩
  | ok _ => exact ⟨rfl, cleared⟩

omit holds window in
theorem confined_unload (p : Program) (offset : Nat) :
    (s.perform polls (.unload p offset)).Confined position := by
  rw [perform_unload]
  cases p.request (some offset) with
  | error e => exact ⟨rfl, .refl _ _⟩
  | ok r =>
    dsimp only
    split
    · exact ⟨rfl, .refl _ _⟩
    · exact ⟨rfl, .refl _ _⟩

omit holds window in
theorem confined_allocate (r : SlotRequest) (checkOnly : Bool) :
    (s.perform polls (.allocate r checkOnly)).Confined position := by
  rw [perform, Operation.perform, start_bind, start_allocate]
  cases r.place? s.handle.occupancy with
  | none => cases checkOnly <;> exact ⟨rfl, .refl _ _⟩
  | some found => cases checkOnly <;> exact ⟨rfl, .refl _ _⟩

theorem confined_perform {op : Operation} (own : op.namesBase = false) :
    (s.perform polls op).Confined position := by
  by_cases still : op.movesPrograms = false
  · have within := op.within_subject polls still (fun _ => trivial)
      (Scope.admits_under op.subject (s.perform polls op).outcome) s.handle s.handle rfl
    have same := within.run_value s.space
    rw [Handle.SameButClaims] at same
    have base := congrArg Handle.base same
    exact ⟨base, holds.keeps_run window within⟩
  · cases op with
    | load p offset => exact confined_load holds window polls p offset
    | unload p offset => exact confined_unload polls p offset
    | clear => exact confined_clear holds window polls
    | allocate r checkOnly => exact confined_allocate polls r checkOnly
    | loadInto base p offset | clearIn base => cases own
    | _ => exact absurd rfl still

end Session

def Machine.performAll {β : Type} [RegisterBlock β] (polls : Nat) (m : Machine β)
    (calls : List (Nat × Operation)) : Machine β :=
  calls.foldl (fun m call => ((m.perform polls call.1 call.2).map (·.machine)).getD m) m

namespace Chip

/-- What a chip can become: its operations are performed, words are stored past the bus, as the
hardware does, and the clock is moved. -/
inductive Reachable : Chip → Prop
  | made {count : Nat} {c : Chip} : ofCount count = .ok c → Reachable c
  | performed {c : Chip} {polls position : Nat} {op : Operation}
      {step : Step RegisterFile (Except Failure Answer)} : Reachable c → op.namesBase = false →
      c.perform polls position op = some step → Reachable step.machine
  | stored {c : Chip} (position index : Nat) (value : Word) : Reachable c →
      Reachable { c with dispatch := c.dispatch.storeAt position index value }
  | advanced {c : Chip} (cycles : Cycle) : Reachable c → Reachable (c.advance cycles)

/-- Each handle has a block of its own, at the same position, with the registers of the layout. -/
structure Wired (c : Chip) : Prop where
  windows : ∀ base ∈ c.handles.map (·.base), Layout.IsWindow base
  distinct : (c.handles.map (·.base)).Nodup
  shape_eq : c.dispatch.shape = (c.handles.map (·.base)).mapIdx fun pio base =>
    (base, PioRegister.all.map (·.info pio))

variable {c c' : Chip}

theorem Wired.congr (wired : c.Wired) (bases : c'.handles.map (·.base) = c.handles.map (·.base))
    (shape : c'.dispatch.shape = c.dispatch.shape) : c'.Wired where
  windows := bases ▸ wired.windows
  distinct := bases ▸ wired.distinct
  shape_eq := by rw [shape, bases, wired.shape_eq]

theorem wired_ofCount {count : Nat} (made : ofCount count = .ok c) : c.Wired := by
  have one : ofCount 1 =
      .ok ⟨⟨[RegisterFile.pioAt 0 0x50200000]⟩, .stopped 0, [Handle.at_ 0 0x50200000]⟩ := rfl
  have two : ofCount 2 = .ok ⟨Dispatch.twoBlocks, .stopped 0,
    [Handle.at_ 0 0x50200000, Handle.at_ 1 0x50300000]⟩ := rfl
  by_cases range : 1 ≤ count ∧ count ≤ Layout.blockCount
  · have few : count = 1 ∨ count = 2 := by
      have upper : count ≤ 2 := range.2
      omega
    rcases few with rfl | rfl
    · cases one.symm.trans made
      exact ⟨List.forall_mem_singleton.mpr (by decide), List.nodup_singleton _, rfl⟩
    · cases two.symm.trans made
      exact ⟨List.forall_mem_cons.mpr ⟨by decide, List.forall_mem_singleton.mpr (by decide)⟩,
        show [0x50200000#32, 0x50300000#32].Nodup by decide, rfl⟩
  · rw [ofCount, if_neg range] at made
    cases made

namespace Wired

theorem shape_at (wired : c.Wired) (k : Nat) : c.dispatch.shape[k]? =
    c.handles[k]?.map fun h => (h.base, PioRegister.all.map (·.info k)) := by
  rw [wired.shape_eq, List.getElem?_mapIdx, List.getElem?_map, Option.map_map]
  rfl

theorem hosts (wired : c.Wired) {k : Nat} {h : Handle} (at_k : c.handles[k]? = some h) :
    Layout.IsWindow h.base ∧ ∃ block, c.dispatch.Hosts k k h.base block := by
  obtain ⟨inside, rfl⟩ := List.getElem?_eq_some_iff.mp at_k
  have window := wired.windows _ (List.mem_map_of_mem (List.getElem_mem inside))
  have found := wired.shape_at k
  rw [at_k] at found
  refine ⟨window, Dispatch.hosts_of_shape found window fun earlier member => ?_⟩
  obtain ⟨q, lt, rfl⟩ := List.mem_take_iff_getElem.mp member
  have before : q < k := by omega
  have there : q < c.handles.length := Nat.lt_trans before inside
  have at_q := wired.shape_at q
  rw [List.getElem?_eq_getElem (by omega), List.getElem?_eq_getElem there, Option.map_some,
    Option.some.injEq] at at_q
  rw [at_q]
  refine ⟨wired.windows _ (List.mem_map_of_mem (List.getElem_mem there)), fun same => ?_, ?_⟩
  · refine List.nodup_iff_getElem?_ne_getElem?.mp wired.distinct q k before (by simpa using inside) ?_
    simp [inside, there, same]
  · rw [List.length_map, PioRegister.length_all]
    decide

theorem kind_eq (wired : c.Wired) {k : Nat} {r : PioRegister} {reg : Register}
    (found : c.dispatch.register? k r.index = some reg) : reg.kind = r.kind := by
  have info := c.dispatch.register?_info k r.index
  rw [found, wired.shape_at, Option.map_some] at info
  cases at_k : c.handles[k]? with
  | none =>
    rw [at_k] at info
    cases info
  | some h =>
    have listed : PioRegister.all[r.index]? = some r := r.ofIndex?_index
    rw [at_k] at info
    simp only [Option.map_some, Option.bind_some, List.getElem?_map, listed, Option.some.injEq] at info
    exact congrArg RegisterInfo.kind info

/-- One operation. -/
theorem perform (wired : c.Wired) {polls k : Nat} {op : Operation}
    {step : Step RegisterFile (Except Failure Answer)} (own : op.namesBase = false)
    (performed : c.perform polls k op = some step) :
    Wired step.machine ∧ c.dispatch.Keeps
      (Dispatch.bitsAt k fun r bit => op.subject.Touches step.outcome r bit)
      step.machine.dispatch := by
  obtain ⟨h, at_k, rfl⟩ := Option.map_eq_some_iff.mp performed
  obtain ⟨window, block, hosts⟩ := wired.hosts at_k
  obtain ⟨words, holds⟩ := hosts.holds
  have confined := Session.confined_perform (s := Session.fresh h c.dispatch) holds window polls own
  have bases : (c.handles.set k (((op.perform polls).start h).run c.dispatch).value.2).map (·.base) =
      c.handles.map (·.base) := map_set_eq_map at_k confined.base_eq
  exact ⟨wired.congr bases confined.keeps.shape_eq, confined.keeps⟩

theorem performAll {may : Nat → Nat → Nat → Prop} (wired : c.Wired) (polls : Nat)
    {calls : List (Nat × Operation)} (own : ∀ call ∈ calls, call.2.namesBase = false)
    (inside : ∀ call ∈ calls, ∀ outcome r bit, call.2.subject.Touches outcome r bit →
      may call.1 r.index bit) :
    Wired (c.performAll polls calls) ∧ c.dispatch.Keeps may (c.performAll polls calls).dispatch := by
  induction calls generalizing c with
  | nil => exact ⟨wired, .refl may c.dispatch⟩
  | cons call rest ih =>
    have own' := fun call member => own call (List.mem_cons_of_mem _ member)
    have inside' := fun call member => inside call (List.mem_cons_of_mem _ member)
    rw [Machine.performAll, List.foldl_cons]
    cases performed : c.perform polls call.1 call.2 with
    | none => exact ih wired own' inside'
    | some step =>
      have first := wired.perform (own call (List.mem_cons_self ..)) performed
      have later := ih first.1 own' inside'
      have touched := first.2.mono fun q j bit ⟨here, r, at_j, touches⟩ =>
        here ▸ at_j ▸ inside call (List.mem_cons_self ..) step.outcome r bit touches
      exact ⟨later.1, touched.trans later.2⟩

variable {may : Nat → Nat → Nat → Prop} {d : Dispatch RegisterFile}

theorem wordAt_eq_of_readOnly (wired : c.Wired) (keeps : c.dispatch.Keeps may d) (k : Nat)
    {r : PioRegister} (fixed : r.kind = .readOnly) : d.wordAt k r = c.dispatch.wordAt k r := by
  rw [Dispatch.wordAt_eq_register?, Dispatch.wordAt_eq_register?]
  obtain ⟨before, after⟩ | ⟨s, s', before, after, kept⟩ := keeps.register?_cases k r.index
  · rw [before, after]
  · rw [before, after]
    exact congrArg some (kept.readOnly ((wired.kind_eq before).trans fixed))

theorem bitAt_of_writeOneToClear (wired : c.Wired) (keeps : c.dispatch.Keeps may d) {k : Nat}
    {r : PioRegister} (flags : r.kind = .writeOneToClear) {bit : Nat}
    (one : d.bitAt k r bit = some true) : c.dispatch.bitAt k r bit = some true := by
  rw [Dispatch.bitAt, Dispatch.wordAt_eq_register?] at one ⊢
  obtain ⟨before, after⟩ | ⟨s, s', before, after, kept⟩ := keeps.register?_cases k r.index
  · rw [after] at one
    cases one
  · rw [after] at one
    rw [before]
    exact congrArg some
      (kept.cleared ((wired.kind_eq before).trans flags) bit (Option.some.inj one))

end Wired

theorem Reachable.wired (reachable : c.Reachable) : c.Wired := by
  induction reachable with
  | made made => exact wired_ofCount made
  | performed _ own performed ih => exact (ih.perform own performed).1
  | stored position index value _ ih =>
    exact ih.congr rfl (Dispatch.shape_storeAt _ position index value)
  | advanced cycles _ ih => exact ih.congr rfl rfl

/-- Every operation through the handle of a block leaves the registers of other blocks alone, and of
its own block it changes only bits of what it is about. So over any run of operations read-only
registers keep their words, no flag is set, and a state machine that no operation is about keeps all
that belongs to it. -/
theorem operations_are_isolated {c : Chip} (reachable : c.Reachable) (polls : Nat) :
    (∀ k op step, op.namesBase = false → c.perform polls k op = some step →
      (∀ q ≠ k, ∀ j, step.machine.dispatch.register? q j = c.dispatch.register? q j) ∧
      ∀ r bit, ¬ op.subject.Touches step.outcome r bit →
        step.machine.dispatch.bitAt k r bit = c.dispatch.bitAt k r bit) ∧
    ∀ calls : List (Nat × Operation), (∀ call ∈ calls, call.2.namesBase = false) →
      (∀ k (r : PioRegister), r.kind = .readOnly →
        (c.performAll polls calls).dispatch.wordAt k r = c.dispatch.wordAt k r) ∧
      (∀ k (r : PioRegister), r.kind = .writeOneToClear → ∀ bit,
        (c.performAll polls calls).dispatch.bitAt k r bit = some true →
          c.dispatch.bitAt k r bit = some true) ∧
      ∀ k (sm : StateMachine),
        (∀ call ∈ calls, call.1 = k → ¬ call.2.subject.Concerns sm) → ∀ r bit, sm.Owns r bit →
          (c.performAll polls calls).dispatch.bitAt k r bit = c.dispatch.bitAt k r bit := by
  have wired := reachable.wired
  constructor
  · intro k op step own performed
    have keeps := (wired.perform own performed).2
    refine ⟨fun q ne j => keeps.register?_eq fun bit touched => ne touched.1,
      fun r bit untouched => keeps.bitAt_eq fun touched => ?_⟩
    obtain ⟨-, r', same, touches⟩ := touched
    exact untouched (PioRegister.index_injective same ▸ touches)
  · intro calls own
    have keeps : c.dispatch.Keeps (fun _ _ _ => True) (c.performAll polls calls).dispatch :=
      (wired.performAll polls own fun _ _ _ _ _ _ => trivial).2
    refine ⟨fun k r fixed => wired.wordAt_eq_of_readOnly keeps k fixed,
      fun k r flags bit one => wired.bitAt_of_writeOneToClear keeps flags one, ?_⟩
    intro k sm apart r bit owns
    have spares : c.dispatch.Keeps (fun q j bit => ¬ Dispatch.bitsAt k sm.Owns q j bit)
        (c.performAll polls calls).dispatch := by
      refine (wired.performAll polls own ?_).2
      rintro call member outcome r bit touches ⟨here, r', same, owned⟩
      rw [PioRegister.index_injective same] at owned
      exact Subject.not_owns_of_touches (apart call member here) touches owned
    exact spares.bitAt_eq (not_not_intro ⟨rfl, r, rfl, owns⟩)

def twoBlocks : Chip :=
  ⟨Dispatch.twoBlocks, .stopped 0, [Handle.at_ 0 0x50200000, Handle.at_ 1 0x50300000]⟩

theorem operations_are_isolated_twoBlocks :
    (∃ step, twoBlocks.perform 1 1 (.setEnabled 2 true) = some step ∧
      ∀ q ≠ 1, ∀ j, step.machine.dispatch.register? q j = twoBlocks.dispatch.register? q j) ∧
    (twoBlocks.performAll 1 [(1, .setEnabled 2 true), (0, .restart 3)]).dispatch.bitAt 1 .ctrl 3 =
      twoBlocks.dispatch.bitAt 1 .ctrl 3 := by
  have made : ofCount 2 = .ok twoBlocks := rfl
  obtain ⟨single, run⟩ := operations_are_isolated (.made made) 1
  have others := (single 1 (.setEnabled 2 true) _ rfl rfl).1
  have spared := (run [(1, .setEnabled 2 true), (0, .restart 3)] (by decide)).2.2 1 3
  refine ⟨⟨_, rfl, others⟩, spared ?_ .ctrl 3 (Or.inl rfl)⟩
  intro call member here about
  rcases List.mem_pair.mp member with rfl | rfl
  · exact absurd about (by decide)
  · cases here

end Chip

end PioBlock
