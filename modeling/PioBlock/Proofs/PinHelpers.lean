import PioBlock.Proofs.FlatHosting
import PioBlock.Proofs.Restoring

/-! What the pin helpers drive. The accesses of a run are replayed on a block and its pins, where a
word written to `INSTR` of a state machine is executed in the window that its `PINCTRL` selects at
that moment. Seen so, a helper drives the pins that it is asked to and no other, and of all registers
only `INSTR` is left with another word. -/

namespace PioBlock

def Dispatch.registerAt (d : Dispatch RegisterFile) (position : Nat) (address : Word) :
    Option PioRegister :=
  match d.locate address with
  | .ok found => if found.position = position then PioRegister.ofIndex? found.index else none
  | .error _ => none

/-- The blocks together with the pins that one of them drives. -/
structure Rig where
  dispatch : Dispatch RegisterFile
  pads : Pads

namespace Rig

def execute (position : Nat) (sm : StateMachine) (rig : Rig) : Rig :=
  match rig.dispatch.wordAt position (.machine sm .pinctrl),
    rig.dispatch.wordAt position (.machine sm .instr) with
  | some pinctrl, some word => { rig with pads := rig.pads.execute pinctrl (word.setWidth 16) }
  | _, _ => rig

/-- One access, and what the hardware does on it. -/
def see (position : Nat) (rig : Rig) : Access → Rig
  | .read address _ => { rig with dispatch := (RegisterSpace.read address rig.dispatch).2 }
  | .write address w _ =>
    let written := { rig with dispatch := (RegisterSpace.write address w rig.dispatch).2 }
    match rig.dispatch.registerAt position address with
    | some (.machine sm .instr) => written.execute position sm
    | _ => written

def replay (position : Nat) (rig : Rig) (trace : List Access) : Rig :=
  trace.foldl (see position) rig

end Rig

def Access.granted (write : Word × Word) : Access :=
  .write write.1 (.ofAddress write.1 write.2) (.ok ())

open Control

variable {d : Dispatch RegisterFile} {position pio : Nat} {h : Handle} {words : PioRegister → Word}

theorem Dispatch.Holds.registerAt_eq (holds : d.Holds position pio h.base words)
    (window : Layout.IsWindow h.base) (r : PioRegister) :
    d.registerAt position (h.address r) = some r := by
  obtain ⟨block, hosts, -⟩ := holds
  have located := hosts.locate window r .plain
  rw [Layout.or_bits_plain] at located
  simp only [Dispatch.registerAt, Handle.address, located, if_true, r.ofIndex?_index]

namespace Rig

variable (holds : d.Holds position pio h.base words) (window : Layout.IsWindow h.base)
include holds window

theorem see_read (r : PioRegister) (answer : Except RegisterError Word) (pads : Pads) :
    see position ⟨d, pads⟩ (.read (h.address r) answer) = ⟨d, pads⟩ := by
  simp only [see, Handle.address, holds.read_eq window]

theorem see_pinctrl (sm : StateMachine) (value : Word) (pads : Pads) :
    see position ⟨d, pads⟩ (.granted (h.address (.machine sm .pinctrl), value)) =
      ⟨d.storeAt position (PioRegister.machine sm .pinctrl).index value, pads⟩ := by
  have written := holds.writeWord_eq window (r := .machine sm .pinctrl) rfl value
  simp only [Access.granted, see, holds.registerAt_eq window]
  simp only [Handle.address, written]

theorem see_instr (sm : StateMachine) (i : Instruction) (pads : Pads) :
    see position ⟨d, pads⟩ (.granted (h.address (.machine sm .instr), i.setWidth 32)) =
      ⟨d.storeAt position (PioRegister.machine sm .instr).index (i.setWidth 32),
        pads.execute (words (.machine sm .pinctrl)) i⟩ := by
  have written := holds.writeWord_eq window (r := .machine sm .instr) rfl (i.setWidth 32)
  have after := holds.storeAt (.machine sm .instr) (i.setWidth 32)
  have pinctrl := after.wordAt_eq (.machine sm .pinctrl)
  have word := after.wordAt_eq (.machine sm .instr)
  rw [Function.update_of_ne (by simp)] at pinctrl
  rw [Function.update_self] at word
  simp only [Access.granted, see, holds.registerAt_eq window]
  simp only [Handle.address, written, execute, pinctrl, word,
    BitVec.setWidth_setWidth_of_le i (show 16 ≤ 32 by decide), BitVec.setWidth_eq]

end Rig

variable {sm : StateMachine}

/-- What strokes do: they succeed, of all registers they change `PINCTRL` and `INSTR` of the state
machine only, and their instructions drive the pins one after the other. -/
theorem run_strokes (sm : StateMachine) (window : Layout.IsWindow h.base) (strokes : List Stroke)
    (holds : d.Holds position pio h.base words) :
    ∃ d' words',
      (Transaction.writeAll (strokeWrites h sm strokes)).run.run d =
        ⟨.ok (), d', (strokeWrites h sm strokes).map .granted⟩ ∧
      d'.Holds position pio h.base words' ∧
      (∀ q j, (q, j) ≠ (position, (PioRegister.machine sm .pinctrl).index) →
        (q, j) ≠ (position, (PioRegister.machine sm .instr).index) →
          d'.register? q j = d.register? q j) ∧
      ∀ pads, Rig.replay position ⟨d, pads⟩ ((strokeWrites h sm strokes).map .granted) =
        ⟨d', strokes.foldl (fun pads s => pads.execute s.window s.instruction) pads⟩ := by
  induction strokes generalizing d words with
  | nil => exact ⟨d, words, rfl, holds, fun _ _ _ _ => rfl, fun _ => rfl⟩
  | cons s rest ih =>
    have cons : strokeWrites h sm (s :: rest) =
        (h.address (.machine sm .pinctrl), s.window) ::
          (h.address (.machine sm .instr), s.instruction.setWidth 32) :: strokeWrites h sm rest := rfl
    have first := holds.writeWord_eq window (r := .machine sm .pinctrl) rfl s.window
    have holds₁ := holds.storeAt (.machine sm .pinctrl) s.window
    have second := holds₁.writeWord_eq window (r := .machine sm .instr) rfl
      (s.instruction.setWidth 32)
    have holds₂ := holds₁.storeAt (.machine sm .instr) (s.instruction.setWidth 32)
    -- The words change with every stroke, so the induction is for all of them: what the SET of a
    -- stroke is executed in is the `PINCTRL` that this very stroke has written.
    obtain ⟨d', words', run, holds', kept, drawn⟩ := ih holds₂
    refine ⟨d', words', ?_, holds', fun q j apart apart' => ?_, fun pads => ?_⟩
    · rw [cons, Transaction.run_writeAll_cons, Transaction.run_writeAll_cons]
      simp only [Procedure.run, Handle.address, first, second, run, List.map_cons, Access.granted]
    · rw [kept q j apart apart', Dispatch.register?_storeAt_of_ne (holds₁.register?_eq _) _ apart',
        Dispatch.register?_storeAt_of_ne (holds.register?_eq _) _ apart]
    · rw [cons, Rig.replay, List.map_cons, List.map_cons, List.foldl_cons, List.foldl_cons,
        Rig.see_pinctrl holds window, Rig.see_instr holds₁ window, Function.update_self]
      exact drawn (pads.execute s.window s.instruction)

theorem run_restoring {address saved : Word} {writes : List (Word × Word)}
    {d₁ d₂ : Dispatch RegisterFile} {trace : List Access}
    (read : RegisterSpace.read address d = (.ok saved, d))
    (middle : (Transaction.writeAll writes).run.run d = ⟨.ok (), d₁, trace⟩)
    (back : RegisterSpace.write address (.ofAddress address saved) d₁ = (.ok (), d₂)) :
    (restoring address writes).run.run d =
      ⟨.ok (), d₂, .read address (.ok saved) :: (trace ++ [.granted (address, saved)])⟩ := by
  rw [run_restoring_eq, read]
  simp only [middle, back]
  rfl

theorem run_acting_draw {strokes : List Stroke} {d' : Dispatch RegisterFile} {trace : List Access}
    (ran : (restoring (h.address (.machine sm .pinctrl)) (strokeWrites h sm strokes)).run.run d =
      ⟨.ok (), d', trace⟩) :
    ((Operation.acting (draw sm strokes)).start h).run d = ⟨(.ok .done, h), d', trace⟩ := by
  rw [run_acting (start_draw sm strokes h), ran]
  rfl

theorem run_draw (sm : StateMachine) (window : Layout.IsWindow h.base)
    (holds : d.Holds position pio h.base words) {strokes : List Stroke} {side : SetDestination}
    (fit : ∀ s ∈ strokes, s.Fits)
    (same : ∀ s ∈ strokes, s.destination = side) :
    ∃ d' trace, ((Operation.acting (draw sm strokes)).start h).run d = ⟨(.ok .done, h), d', trace⟩ ∧
      (∀ q j, (q, j) ≠ (position, (PioRegister.machine sm .instr).index) →
        d'.register? q j = d.register? q j) ∧
      ∀ pads, Rig.replay position ⟨d, pads⟩ trace =
        ⟨d', pads.modify side (Stroke.applyAll strokes)⟩ := by
  obtain ⟨d₁, words₁, middle, holds₁, kept, drawn⟩ := run_strokes sm window strokes holds
  have read := holds.read_eq window (.machine sm .pinctrl)
  have back := holds₁.writeWord_eq window (r := .machine sm .pinctrl) rfl
    (words (.machine sm .pinctrl))
  refine ⟨_, _, run_acting_draw (run_restoring read middle back), fun q j apart => ?_,
    fun pads => ?_⟩
  · by_cases here : (q, j) = (position, (PioRegister.machine sm .pinctrl).index)
    · -- The strokes did change `PINCTRL`, and the last write puts back the word read first.
      cases here
      rw [Dispatch.register?_storeAt (holds₁.register?_eq _), holds.register?_eq]
    · rw [Dispatch.register?_storeAt_of_ne (holds₁.register?_eq _) _ here, kept q j here apart]
  · have strokes_drawn := drawn pads
    rw [Stroke.foldl_execute fit same] at strokes_drawn
    have seen := Rig.see_read holds window (.machine sm .pinctrl)
      (.ok (words (.machine sm .pinctrl))) pads
    have restored := Rig.see_pinctrl holds₁ window sm (words (.machine sm .pinctrl))
      (pads.modify side (Stroke.applyAll strokes))
    rw [Rig.replay] at strokes_drawn ⊢
    rw [List.foldl_cons, List.foldl_append, List.foldl_cons, List.foldl_nil, seen, strokes_drawn,
      restored]

/-- What a pin helper does: it succeeds, the pins before and after are related by `effect`, and all
registers of all blocks but `INSTR` of the state machine are as they were. -/
structure Drives (d : Dispatch RegisterFile) (position : Nat) (h : Handle) (sm : StateMachine)
    (polls : Nat) (op : Operation) (effect : Pads → Pads → Prop) : Prop where
  outcome : (((op.perform polls).start h).run d).value = (.ok .done, h)
  drives : ∀ pads, effect pads
    (Rig.replay position ⟨d, pads⟩ (((op.perform polls).start h).run d).trace).pads
  keeps : ∀ q j, (q, j) ≠ (position, (PioRegister.machine sm .instr).index) →
    (((op.perform polls).start h).run d).space.register? q j = d.register? q j

theorem drives_of_draw (window : Layout.IsWindow h.base) (holds : d.Holds position pio h.base words)
    {polls : Nat} {op : Operation} {effect : Pads → Pads → Prop} (strokes : List Stroke)
    (side : SetDestination) (draws : op.perform polls = Operation.acting (draw sm strokes))
    (fit : ∀ s ∈ strokes, s.Fits) (same : ∀ s ∈ strokes, s.destination = side)
    (drawn : ∀ pads, effect pads (pads.modify side (Stroke.applyAll strokes))) :
    Drives d position h sm polls op effect := by
  obtain ⟨d', trace, run, kept, replayed⟩ := run_draw sm window holds fit same
  constructor
  · rw [draws, run]
  · intro pads
    rw [draws, run, replayed]
    exact drawn pads
  · rw [draws, run]
    exact kept

/-- The helpers drive the pins that they are asked to and no other, on the side that they are asked
to: setting all values makes the values those given, setting some keeps the values outside the
mask, and so for directions; consecutive directions are those of the `count` pins from `base` on,
around the end of the pins. -/
theorem helpers_drive {block : RegisterFile} (hosts : d.Hosts position pio h.base block)
    (window : Layout.IsWindow h.base) (sm : StateMachine) (polls : Nat) :
    (∀ values, Drives d position h sm polls (.setPins sm.val values) fun before after =>
      after = { before with values := values }) ∧
    (∀ values mask, Drives d position h sm polls (.setPinsMasked sm.val values mask)
      fun before after =>
        after = { before with values := (before.values &&& ~~~mask) ||| (values &&& mask) }) ∧
    (∀ directions mask, Drives d position h sm polls (.setPindirsMasked sm.val directions mask)
      fun before after => after =
        { before with directions := (before.directions &&& ~~~mask) ||| (directions &&& mask) }) ∧
    ∀ base ≤ 31, ∀ count ≤ 32, ∀ isOut,
      Drives d position h sm polls (.setConsecutivePindirs sm.val base count isOut)
        fun before after => after.values = before.values ∧ ∀ p < 32,
          after.directions.getLsbD p =
            if ((p : Int) - base) % 32 < count then isOut else before.directions.getLsbD p := by
  obtain ⟨words, holds⟩ := hosts.holds
  refine ⟨fun values => ?_, fun values mask => ?_, fun directions mask => ?_,
    fun base in_pins count small isOut => ?_⟩
  · refine drives_of_draw window holds (Stroke.allPins values) .pins ?_
      (Stroke.fits_allPins values) (List.forall_mem_map.mpr fun _ _ => rfl) fun pads => ?_
    · rw [Operation.perform, Operation.machine_val, pure_bind]
    · rw [Pads.modify, Stroke.applyAll_allPins]
  · refine drives_of_draw window holds (Stroke.masked .pins values mask) .pins ?_
      (Stroke.fits_masked _ values mask)
      (List.forall_mem_map.mpr fun _ _ => rfl) fun pads => ?_
    · rw [Operation.perform, Operation.machine_val, pure_bind]
    · rw [Pads.modify, Stroke.applyAll_masked]
  · refine drives_of_draw window holds (Stroke.masked .pindirs directions mask) .pindirs ?_
      (Stroke.fits_masked _ directions mask)
      (List.forall_mem_map.mpr fun _ _ => rfl) fun pads => ?_
    · rw [Operation.perform, Operation.machine_val, pure_bind]
    · rw [Pads.modify, Stroke.applyAll_masked]
  · have below : base < 32 := Nat.lt_succ_of_le in_pins
    refine drives_of_draw window holds (Stroke.consecutive base count isOut) .pindirs ?_
      (Stroke.fits_consecutive below isOut)
      (List.forall_mem_map.mpr fun _ _ => rfl) fun pads => ⟨rfl, fun p in_word => ?_⟩
    · rw [Operation.perform, Operation.machine_val, pure_bind, Operation.below32, dif_pos below,
        pure_bind, if_neg (Nat.not_lt.mpr small)]
    · -- The distance from `base` to `p` around the end, once as an integer and once as a number.
      have distance : ((p : Int) - base) % 32 < count ↔ (p + 32 - base) % 32 < count := by omega
      rw [Pads.modify, Stroke.getLsbD_applyAll_consecutive below small isOut _ in_word]
      simp only [distance]

theorem helpers_drive_twoBlocks :
    Drives Dispatch.twoBlocks 1 (Handle.at_ 1 0x50300000) 2 7 (.setConsecutivePindirs 2 30 7 true)
      fun before after => after.values = before.values ∧ ∀ p < 32,
        after.directions.getLsbD p =
          if ((p : Int) - 30) % 32 < 7 then true else before.directions.getLsbD p := by
  obtain ⟨block, hosts⟩ : ∃ block, Dispatch.twoBlocks.Hosts 1 1 0x50300000 block :=
    Dispatch.hosts_of_shape rfl (by decide) fun earlier member => by
      obtain rfl := List.mem_singleton.mp member
      exact ⟨by decide, by decide, by decide⟩
  exact (helpers_drive (h := Handle.at_ 1 0x50300000) hosts (by decide) 2 7).2.2.2 30 (by decide) 7
    (by decide) true

end PioBlock
