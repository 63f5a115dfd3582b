import PioBlock.Proofs.Panics.Protocol

/-! Which calls can panic. Each operation in checked arithmetic is the operation itself, so its
sums and shifts stay within their widths and its spans are fields, for whatever numbers it is given.
What is left is the one panic that the operations have of their own: unloading a program from slots
that are not all taken. -/

namespace PioBlock.Guarded

open Control Operation

variable {base : Word}

def acting (g : Guarded Unit) : Guarded Answer := do
  g
  return .done

def perform (polls : Nat) : Operation → Guarded Answer
  | .configure sm config => acting (configure sm config)
  | .initialise sm pc config => acting (initialise sm pc config)
  | .setEnabled sm on => acting (setEnabled sm on)
  | .setMaskEnabled mask on => acting (setMaskEnabled mask on)
  | .restartMask mask => acting (restartMask mask)
  | .restartDividersMask mask => acting (restartDividersMask mask)
  | .enableMaskInSync mask => acting (enableMaskInSync mask)
  | .restart sm => acting (restart sm)
  | .restartDivider sm => acting (restartDivider sm)
  | .execute sm i => acting (execute sm i)
  | .isStalled sm => do return .truth (← isStalled sm)
  | .executeBlocking sm i => acting (executeBlocking polls sm i)
  | .programCounter sm => do return .number (← programCounter sm)
  | .put sm data => acting (put sm data)
  | .take sm => do return .word (← take sm)
  | .isTxFull sm => do return .truth (← status Layout.txFull sm)
  | .isTxEmpty sm => do return .truth (← status Layout.txEmpty sm)
  | .isRxFull sm => do return .truth (← status Layout.rxFull sm)
  | .isRxEmpty sm => do return .truth (← status Layout.rxEmpty sm)
  | .txLevel sm => do return .word (← level Checked.txLevel sm)
  | .rxLevel sm => do return .word (← level Checked.rxLevel sm)
  | .putBlocking sm data => acting (putBlocking polls sm data)
  | .takeBlocking sm => do return .word (← takeBlocking polls sm)
  | .drain sm => acting (drain polls sm)
  | .clearQueues sm => acting (clearQueues sm)
  | .setPins sm values => acting (setPins sm (Checked.allPins values 0))
  | .setPinsMasked sm values mask => acting (setPins sm (Checked.masked .pins values mask))
  | .setPindirsMasked sm directions mask =>
    acting (setPins sm (Checked.masked .pindirs directions mask))
  | .setConsecutivePindirs sm base count isOut =>
    acting (setConsecutivePindirs sm base count isOut)
  | .adjustWrap sm target wrap =>
    acting (adjust (.wrap target wrap) sm .execctrl Config.execctrl Layout.wrapTop
      Layout.wrapBottom)
  | .adjustOutPins sm base count =>
    acting (adjust (.outPins base count) sm .pinctrl Config.pinctrl Layout.outBase
      Layout.outCount)
  | .adjustSetPins sm base count =>
    acting (adjust (.setPins base count) sm .pinctrl Config.pinctrl Layout.setBase
      Layout.setCount)
  | .adjustInPins sm base => acting (adjustPin sm base Layout.inBase)
  | .adjustSidesetPins sm base => acting (adjustPin sm base Layout.sidesetBase)
  | .adjustClkdiv sm int frac =>
    acting (adjust (.clkdivIntFrac int frac) sm .clkdiv Config.clkdiv Layout.clkdivInt
      Layout.clkdivFrac)
  | .claim sm => acting (claim sm)
  | .claimMask mask => acting (claimMask mask)
  | .unclaim sm => acting (unclaim sm)
  | .claimUnused required => do return .maybe ((← claimUnused required).map (·.val))
  | .isClaimed sm => do return .truth (← isClaimed sm)
  | .canLoadAnywhere p => do return .truth (← canLoadAnywhere p)
  | .canLoad p offset => do return .truth (← canLoad p offset)
  | .load p offset => do return .number (← load p offset)
  | .unload p offset => acting (unload p offset)
  | .clear => acting clear
  | .allocate r checkOnly => do
    return .maybe ((← ofControl (Control.allocate r checkOnly)).map (·.offset))
  | .loadInto base p offset => do return .number (← loadInto base p offset)
  | .clearIn base => acting (clearIn base)

def named : Operation → List Word
  | .loadInto base _ _ | .clearIn base => [base]
  | _ => []

theorem acting_ite {p : Prop} [Decidable p] (e : PioError) (c : Control Unit) :
    Operation.acting (if p then Control.refuse e else c) =
      if p then Control.refuse e else Operation.acting c := by
  split <;> rfl

/-- Every operation but unloading follows, whatever it is given. -/
theorem follows_perform (fits : Layout.Fits base) (polls : Nat) (op : Operation)
    (others : ∀ target ∈ named op, Layout.Fits target) (keeps : ∀ p offset, op ≠ .unload p offset) :
    Follows base (perform polls op) (op.perform polls) := by
  cases op with
  | configure sm config => exact (follows_configure fits sm config).and_then fun _ => .pure _
  | initialise sm pc config =>
    exact (follows_initialise fits sm pc config).and_then_second fun _ => .pure _
  | setEnabled sm on => exact (follows_setEnabled fits sm on).and_then fun _ => .pure _
  | setMaskEnabled mask on => exact (follows_setMaskEnabled fits mask on).and_then fun _ => .pure _
  | restartMask mask => exact (follows_restartMask fits mask).and_then fun _ => .pure _
  | restartDividersMask mask =>
    exact (follows_restartDividersMask fits mask).and_then fun _ => .pure _
  | enableMaskInSync mask => exact (follows_enableMaskInSync fits mask).and_then fun _ => .pure _
  | restart sm => exact (follows_restart fits sm).and_then fun _ => .pure _
  | restartDivider sm => exact (follows_restartDivider fits sm).and_then fun _ => .pure _
  | execute sm i => exact (follows_execute fits sm i).and_then fun _ => .pure _
  | isStalled sm => exact (follows_isStalled fits sm).and_then fun _ => .pure _
  | executeBlocking sm i =>
    exact (follows_executeBlocking fits polls sm i).and_then fun _ => .pure _
  | programCounter sm => exact (follows_programCounter fits sm).and_then fun _ => .pure _
  | put sm data => exact (follows_put fits sm data).and_then fun _ => .pure _
  | take sm => exact (follows_take fits sm).and_then fun _ => .pure _
  | isTxFull sm | isTxEmpty sm | isRxFull sm | isRxEmpty sm =>
    exact (follows_status fits (by decide) sm).and_then fun _ => .pure _
  | txLevel sm => exact (follows_level fits Checked.txLevel_eq_ok sm).and_then fun _ => .pure _
  | rxLevel sm => exact (follows_level fits Checked.rxLevel_eq_ok sm).and_then fun _ => .pure _
  | putBlocking sm data => exact (follows_putBlocking fits polls sm data).and_then fun _ => .pure _
  | takeBlocking sm => exact (follows_takeBlocking fits polls sm).and_then fun _ => .pure _
  | drain sm => exact (follows_drain fits polls sm).and_then fun _ => .pure _
  | clearQueues sm => exact (follows_clearQueues fits sm).and_then fun _ => .pure _
  | setPins sm values =>
    exact (follows_setPins fits (Checked.allPins_eq_ok values) sm).and_then fun _ => .pure _
  | setPinsMasked sm values mask | setPindirsMasked sm values mask =>
    exact (follows_setPins fits (Checked.masked_eq_ok _ values mask) sm).and_then fun _ => .pure _
  | setConsecutivePindirs sm pin count isOut =>
    simp only [Operation.perform, ← acting_ite]
    exact (follows_setConsecutivePindirs fits sm pin count isOut).and_then_second fun _ => .pure _
  | adjustWrap sm target wrap | adjustOutPins sm pin count | adjustSetPins sm pin count
  | adjustClkdiv sm int frac =>
    exact (follows_adjust fits _ sm _ _ _ _).and_then fun _ => .pure _
  | adjustInPins sm pin | adjustSidesetPins sm pin =>
    exact (follows_adjustPin fits sm pin _).and_then_second fun _ => .pure _
  | claim sm => exact (follows_claim sm).and_then fun _ => .pure _
  | claimMask mask => exact (follows_claimMask mask).and_then fun _ => .pure _
  | unclaim sm => exact (follows_unclaim sm).and_then fun _ => .pure _
  | claimUnused required => exact .returning (follows_claimUnused required)
  | isClaimed sm => exact (follows_isClaimed sm).and_then fun _ => .pure _
  | canLoadAnywhere p => exact .returning (follows_canLoadAnywhere p)
  | canLoad p offset => exact .returning (follows_canLoad p offset)
  | load p offset => exact .returning (follows_load fits p offset)
  | unload p offset => exact absurd rfl (keeps p offset)
  | clear => exact .bind (follows_clear fits) fun _ => .pure _
  | allocate r checkOnly => exact .returning (follows_allocate r checkOnly)
  | loadInto target p offset =>
    exact .returning (follows_loadInto (others target (List.mem_singleton_self _)) p offset)
  | clearIn target =>
    exact .bind (follows_clearIn (others target (List.mem_singleton_self _))) fun _ => .pure _

theorem start_perform_unload (polls : Nat) (p : Program) (offset : Nat) (h : Handle) :
    (perform polls (.unload p offset)).start h =
      (ofControl ((Operation.unload p offset).perform polls)).start h := by
  rw [perform, acting, start_bind, start_unload, start_ofControl, start_ofControl,
    Operation.perform, Operation.acting, Control.start_bind, Procedure.bind_assoc,
    Procedure.bind_assoc]
  congr 1
  funext ended
  obtain ⟨e | a, h'⟩ := ended <;> rfl

/-- A program that can be asked for at the offset, and of whose slots one is free. -/
def Mismatches (h : Handle) (p : Program) (offset : Nat) : Prop :=
  p.CanStandAt offset ∧ ¬ p.slotSet offset ⊆ slotsOf h.occupancy

theorem start_unload_of_mismatches {h : Handle} {p : Program} {offset : Nat}
    (mismatch : Mismatches h p offset) (polls : Nat) :
    ((Operation.unload p offset).perform polls).start h =
      .done (.error (.breach ⟨p.slotsAt offset, offset, h.occupancy⟩), h) := by
  have free : ¬ h.occupancy &&& p.slotsAt offset = p.slotsAt offset := by
    rw [and_eq_right_iff_subset, Program.slotsOf_slotsAt]
    exact mismatch.2
  rw [Operation.perform, Operation.acting, Control.start_bind, Control.start_unload,
    Program.request_of_canStandAt mismatch.1]
  dsimp only
  rw [if_neg free]
  rfl

theorem calm_unload_of_not_mismatches {h : Handle} {p : Program} {offset : Nat}
    (fair : ¬ Mismatches h p offset) (polls : Nat) :
    (((Operation.unload p offset).perform polls).start h).Meets (fun _ => True)
      (fun _ _ => True) (Calm h.base) := by
  rw [Operation.perform, Operation.acting, Control.start_bind, Control.start_unload]
  by_cases stand : p.CanStandAt offset
  · have taken : h.occupancy &&& p.slotsAt offset = p.slotsAt offset := by
      rw [and_eq_right_iff_subset, Program.slotsOf_slotsAt]
      exact not_not.mp fun free => fair ⟨stand, free⟩
    rw [Program.request_of_canStandAt stand]
    dsimp only
    rw [if_pos taken]
    exact calm_ok _ rfl
  · obtain ⟨e, refused⟩ := Program.request_of_not_canStandAt stand
    rw [refused]
    exact calm_error _ rfl

/-- The blocks that an operation reaches have addresses of 32 bits. -/
def Reaches (h : Handle) (op : Operation) : Prop :=
  ∀ base ∈ h.base :: named op, Layout.Fits base

theorem start_perform {h : Handle} {op : Operation} (reaches : Reaches h op) (polls : Nat) :
    (perform polls op).start h = (ofControl (op.perform polls)).start h := by
  by_cases unloads : ∃ p offset, op = .unload p offset
  · obtain ⟨p, offset, rfl⟩ := unloads
    exact start_perform_unload polls p offset h
  · have follows := follows_perform (reaches h.base (List.mem_cons_self ..)) polls op
      (fun target listed => reaches target (List.mem_cons_of_mem _ listed))
      fun p offset same => unloads ⟨p, offset, same⟩
    exact follows.same h rfl

theorem calm_perform {h : Handle} {op : Operation} (reaches : Reaches h op) (polls : Nat)
    (fair : ∀ p offset, op = .unload p offset → ¬ Mismatches h p offset) :
    ((op.perform polls).start h).Meets (fun _ => True) (fun _ _ => True) (Calm h.base) := by
  by_cases unloads : ∃ p offset, op = .unload p offset
  · obtain ⟨p, offset, rfl⟩ := unloads
    exact calm_unload_of_not_mismatches (fair p offset rfl) polls
  · have follows := follows_perform (reaches h.base (List.mem_cons_self ..)) polls op
      (fun target listed => reaches target (List.mem_cons_of_mem _ listed))
      fun p offset same => unloads ⟨p, offset, same⟩
    exact follows.calm h rfl

theorem run_ofControl {σ : Type} [RegisterSpace σ] (c : Control α) (h : Handle) (s : σ) :
    ((ofControl c).start h).run s =
      ⟨renamed ((c.start h).run s).value, ((c.start h).run s).space, ((c.start h).run s).trace⟩ := by
  rw [start_ofControl, Procedure.run_bind]
  simp only [Procedure.run_done, List.append_nil]

/-- On a block whose registers have addresses of 32 bits, whatever the slots taken and the state
machines claimed, an operation with any numbers for its arguments computes in checked arithmetic
just what it computes without. It panics when it unloads a program that could be loaded at the
offset and of whose slots one is free, and never else; then no access was made, and the handle with
its occupancy is as before. The configuration for a program at any offset, the setters and getters
of configurations, and what building a program adds up are computed without a panic as well. -/
theorem only_unload_panics {σ : Type} [RegisterSpace σ] (polls : Nat) (op : Operation) (h : Handle)
    (s : σ) (reaches : Reaches h op) :
    (∀ p offset, (Checked.forProgram p offset).run = .ok (Config.forProgram p offset)) ∧
      (∀ setting : Setting, ∀ c, (Checked.setter setting).on c = .ok (setting.setter.on c)) ∧
      (∀ f w, Checked.extract f w = .ok (f.extract w)) ∧
      (∀ p, Checked.lastSlot p = .ok (Draft.lastSlot p.origin p.length).val) ∧
      (perform polls op).start h =
        ((op.perform polls).start h >>= fun ended => .done (renamed ended)) ∧
      (((perform polls op).start h).run s).value.2.base = h.base ∧
      (∀ cause, (((perform polls op).start h).run s).value.1 = .error (.panic cause) ↔
        ∃ p offset, op = .unload p offset ∧ p.CanStandAt offset ∧
          ¬ p.slotSet offset ⊆ slotsOf h.occupancy ∧
          cause = .breach ⟨p.slotsAt offset, offset, h.occupancy⟩) ∧
      ∀ cause, (((perform polls op).start h).run s).value.1 = .error (.panic cause) →
        ((perform polls op).start h).run s = ⟨(.error (.panic cause), h), s, []⟩ := by
  have same := start_perform reaches polls
  refine ⟨Checked.forProgram_eq_ok, Checked.computes_setter, Checked.extract_eq_ok,
    Checked.lastSlot_eq_ok, same, ?_⟩
  -- A mismatch ends in the one panic at once. Every other call is calm, and so does not panic.
  by_cases mismatched : ∃ p offset, op = .unload p offset ∧ Mismatches h p offset
  · obtain ⟨p, offset, rfl, mismatch⟩ := mismatched
    have run : ((perform polls (.unload p offset)).start h).run s =
        ⟨(.error (.panic (.breach ⟨p.slotsAt offset, offset, h.occupancy⟩)), h), s, []⟩ := by
      rw [same, start_ofControl, start_unload_of_mismatches mismatch]
      rfl
    rw [run]
    refine ⟨rfl, fun cause => ⟨fun ends => ?_, ?_⟩, fun cause ends => ?_⟩
    · cases ends
      exact ⟨p, offset, rfl, mismatch.1, mismatch.2, rfl⟩
    · rintro ⟨p', offset', call, -, -, rfl⟩
      cases call
      rfl
    · cases ends
      rfl
  · have calm := (calm_perform reaches polls fun p offset call mismatch =>
      mismatched ⟨p, offset, call, mismatch⟩).run_value s
    have never (cause : Panic) :
        (((perform polls op).start h).run s).value.1 ≠ .error (.panic cause) := by
      rw [same, run_ofControl]
      exact calm.not_panic cause
    refine ⟨?_, fun cause => ⟨fun ends => absurd ends (never cause), ?_⟩,
      fun cause ends => absurd ends (never cause)⟩
    · rw [same, run_ofControl]
      exact calm.1
    · rintro ⟨p, offset, call, stand, free, -⟩
      exact absurd ⟨p, offset, call, stand, free⟩ mismatched

theorem only_unload_panics_sampleLoop :
    Reaches ⟨0, 0x50200000, 1, 0⟩ (.unload Session.sampleLoop 0) ∧
      ((perform 1 (.unload Session.sampleLoop 0)).start ⟨0, 0x50200000, 1, 0⟩).run
          Dispatch.twoBlocks =
        ⟨(.error (.panic (.breach ⟨Session.sampleLoop.slotsAt 0, 0, 1⟩)), ⟨0, 0x50200000, 1, 0⟩),
          Dispatch.twoBlocks, []⟩ := by
  have reaches : Reaches ⟨0, 0x50200000, 1, 0⟩ (.unload Session.sampleLoop 0) := by
    intro base listed
    obtain rfl := List.mem_singleton.mp listed
    decide
  have stand : Session.sampleLoop.CanStandAt 0 := ⟨by decide, fun _ given => by cases given⟩
  have free : ¬ Session.sampleLoop.slotSet 0 ⊆ slotsOf 1 := by decide +kernel
  have panics := (only_unload_panics 1 (.unload Session.sampleLoop 0) ⟨0, 0x50200000, 1, 0⟩
    Dispatch.twoBlocks reaches).2.2.2.2.2.2
  exact ⟨reaches, panics.2 _ ((panics.1 _).mpr ⟨_, _, rfl, stand, free, rfl⟩)⟩

end PioBlock.Guarded
