import PioBlock.Proofs.Bases.Mirroring
import PioBlock.Proofs.CodeMemory
import PioBlock.Proofs.Isolation
import PioBlock.Proofs.Pads

/-! Operations do not notice the base. One lemma for each definition that reaches the registers or
looks at the handle, and from these one case for each operation. Only the operations on a block that
the caller names are left out. -/

namespace PioBlock

namespace Control

variable {α : Type} {m : Bases}

abbrev Uniform (m : Bases) (c : Control α) : Prop := Mirrors m c c

theorem Uniform.rules : Rules (fun r _ => r.Driven) (Uniform m) :=
  ⟨.pure, .bind, .throw nofun, fun driven => .access driven _⟩

theorem Uniform.checks : Checks (Uniform m) := ⟨.pure, fun _ => .refuse rfl⟩

theorem uniform_writeAll (items : List (PioRegister × Word))
    (driven : ∀ item ∈ items, item.1.Driven) :
    Uniform m (do
      let h ← get
      transact (.writeAll (items.map fun item => (h.address item.1, item.2)))) :=
  .get_bind fun h base => by
    simp only [Handle.address, base]
    exact .transact (.writeAll driven)

theorem uniform_configure (sm : StateMachine) (c : Config) : Uniform m (configure sm c) := by
  refine uniform_writeAll (configWords sm c) fun item listed => ?_
  simp only [configWords, List.mem_cons, List.not_mem_nil, or_false] at listed
  obtain rfl | rfl | rfl | rfl := listed
  all_goals exact PioRegister.driven_machine sm _

theorem uniform_initialise (sm : StateMachine) (pc : Slot) (c : Config) :
    Uniform m (initialise sm pc c) := by
  refine .bind (.access (by decide) _) fun _ => ?_
  refine .bind (uniform_configure sm c) fun _ => ?_
  refine .bind (Uniform.rules.clearQueues sm (PioRegister.driven_machine sm _)) fun _ => ?_
  refine .bind (.access (by decide) _) fun _ => ?_
  refine .bind (.access (by decide) _) fun _ => ?_
  refine .bind (.access (by decide) _) fun _ => ?_
  exact .access (PioRegister.driven_machine sm _) _

theorem driven_strokeItems (sm : StateMachine) (strokes : List Stroke) :
    ∀ item ∈ strokeItems sm strokes, item.1.Driven := by
  intro item listed
  obtain ⟨s, -, listed⟩ := List.mem_flatMap.mp listed
  simp only [List.mem_cons, List.not_mem_nil, or_false] at listed
  obtain rfl | rfl := listed
  all_goals exact PioRegister.driven_machine sm _

theorem uniform_draw (sm : StateMachine) (strokes : List Stroke) :
    Uniform m (draw sm strokes) := by
  refine .get_bind fun h base => .transact ?_
  simp only [strokeWrites_eq, Handle.address, base]
  have pins := m.matches_plain (PioRegister.driven_machine sm .pinctrl)
  refine .bind (.read pins) fun saved => ?_
  refine .outcome_bind (.writeAll (driven_strokeItems sm strokes)) fun _ => ?_
  refine .outcome_bind (.write pins saved) fun _ => ?_
  exact .pure _

theorem uniform_scratch (sm : StateMachine) (r : MachineRegister) (setting : Setting)
    (bits : Config → Word) (mask : Word) :
    Uniform m (do
      let c ← scratch setting
      adjust sm r (bits c) mask) :=
  .bind (.ofExcept (fun _ => rfl) _) fun _ => .access (PioRegister.driven_machine sm r) _

theorem uniform_claim (machines : MachineSet) : Uniform m (claim machines) := by
  refine .get_bind fun h base => ?_
  obtain ⟨index, left, occupancy, claimed⟩ := h
  dsimp only [Handle.rebase]
  cases setBits (claimed &&& machines) with
  | nil => exact .set base
  | cons => exact .refuse rfl

theorem uniform_unclaim (sm : StateMachine) : Uniform m (unclaim sm) :=
  .modify (fun _ => rfl) fun _ => rfl

theorem uniform_claimUnused (required : Bool) : Uniform m (claimUnused required) := by
  refine .get_bind fun h base => ?_
  obtain ⟨index, left, occupancy, claimed⟩ := h
  dsimp only [Handle.rebase]
  cases MachineSet.lowestFree? claimed with
  | some sm => exact .bind (.set base) fun _ => .pure _
  | none =>
    cases required with
    | true => exact .refuse rfl
    | false => exact .pure _

theorem uniform_isClaimed (sm : StateMachine) : Uniform m (isClaimed sm) :=
  .get_bind fun _ _ => .pure _

theorem uniform_allocate (r : SlotRequest) (checkOnly : Bool) :
    Uniform m (allocate r checkOnly) := by
  refine .get_bind fun h base => ?_
  obtain ⟨index, left, occupancy, claimed⟩ := h
  dsimp only [Handle.rebase]
  cases r.place? occupancy with
  | some found =>
    cases checkOnly with
    | true => exact .pure _
    | false => exact .bind (.set base) fun _ => .pure _
  | none =>
    cases checkOnly with
    | true => exact .pure _
    | false => exact .refuse rfl

theorem isRegister_ofRequestFault (e : RequestFault) :
    (PioError.ofRequestFault e).isRegister = false := by cases e <;> rfl

theorem uniform_canLoad (p : Program) (offset : Option Nat) : Uniform m (canLoad p offset) :=
  .bind (.ofExcept isRegister_ofRequestFault _) fun r =>
    .bind (uniform_allocate r true) fun _ => .pure _

theorem uniform_canLoadAnywhere (p : Program) : Uniform m (canLoadAnywhere p) :=
  .tryCatch (uniform_canLoad p none) fun _ => .pure _

theorem mirrors_loadWrites (p : Program) (offset : Nat) :
    Transaction.Mirrors m (.writeAll (loadWrites m.left p offset))
      (.writeAll (loadWrites m.right p offset)) := by
  rw [Program.loadWrites_eq, Program.loadWrites_eq]
  refine .writeAll fun item listed => ?_
  obtain ⟨placed, -, rfl⟩ := List.mem_map.mp listed
  exact PioRegister.driven_instrMem _

theorem uniform_load (p : Program) (offset : Option Nat) : Uniform m (load p offset) := by
  refine .get_bind fun h base => ?_
  rw [base]
  refine .bind (.ofExcept isRegister_ofRequestFault _) fun r => ?_
  refine .bind (uniform_allocate r false) fun found => ?_
  cases found with
  | none => exact .refuse rfl
  | some found => exact .attempt_bind (mirrors_loadWrites p found.offset) fun _ => .pure _

theorem uniform_unload (p : Program) (offset : Nat) : Uniform m (unload p offset) := by
  refine .bind (.ofExcept isRegister_ofRequestFault _) fun _ => .get_bind fun h base => ?_
  dsimp only
  by_cases taken : h.occupancy &&& p.slotsAt offset = p.slotsAt offset
  · have taken' : (h.rebase m.right).occupancy &&& p.slotsAt offset = p.slotsAt offset := taken
    rw [if_pos taken, if_pos taken']
    exact .set base
  · have taken' : ¬(h.rebase m.right).occupancy &&& p.slotsAt offset = p.slotsAt offset := taken
    rw [if_neg taken, if_neg taken']
    exact .throw fun _ => Failure.noConfusion

theorem uniform_clear : Uniform m clear := by
  refine .get_bind fun h base => ?_
  rw [base]
  refine .bind (.transact ?_) fun _ => .modify (fun _ => rfl) fun _ => rfl
  change Transaction.Mirrors m (.writeAll (clearWrites m.left)) (.writeAll (clearWrites m.right))
  rw [clearWrites_eq, clearWrites_eq]
  refine .writeAll fun item listed => ?_
  obtain ⟨slot, -, rfl⟩ := List.mem_map.mp listed
  exact PioRegister.driven_instrMem slot

end Control

namespace Operation

open Control PioRegister

variable {m : Bases}

theorem uniform_acting {c : Control Unit} (same : Uniform m c) : Uniform m (acting c) :=
  .bind same fun _ => .pure _

theorem uniform_perform (op : Operation) (polls : Nat) (own : op.namesBase = false) :
    Uniform m (op.perform polls) := by
  have rules : Rules (fun r _ => r.Driven) (Uniform m) := Uniform.rules
  have checks : Checks (Uniform m) := Uniform.checks
  cases op with
  | configure sm c =>
    exact .bind (checks.machine sm) fun sm => uniform_acting (uniform_configure sm c)
  | initialise sm pc c =>
    exact .bind (checks.machine sm) fun sm => .bind (checks.below32 _ pc) fun pc =>
      uniform_acting (uniform_initialise sm pc _)
  | setEnabled sm on | restart sm | restartDivider sm =>
    exact .bind (checks.machine sm) fun _ => uniform_acting (.access (by decide) _)
  | setMaskEnabled mask on | restartMask mask | restartDividersMask mask | enableMaskInSync mask =>
    exact .bind (checks.machines mask) fun _ => uniform_acting (.access (by decide) _)
  | execute sm i =>
    exact .bind (checks.machine sm) fun sm => uniform_acting (.access (driven_machine sm _) _)
  | executeBlocking sm i =>
    exact .bind (checks.machine sm) fun sm => uniform_acting
      (rules.executeBlocking polls sm i (driven_machine sm _) (driven_machine sm _))
  | put sm data =>
    exact .bind (checks.machine sm) fun sm => uniform_acting (.access (driven_txf sm) _)
  | putBlocking sm data =>
    exact .bind (checks.machine sm) fun sm => uniform_acting
      (rules.putBlocking polls sm data (by decide) (driven_txf sm))
  | drain sm =>
    exact .bind (checks.machine sm) fun sm => uniform_acting
      (rules.drain polls sm (driven_machine sm _) (by decide) fun _ => driven_machine sm _)
  | clearQueues sm =>
    exact .bind (checks.machine sm) fun sm => uniform_acting
      (rules.clearQueues sm (driven_machine sm _))
  | setPins sm values | setPinsMasked sm values mask | setPindirsMasked sm values mask =>
    exact .bind (checks.machine sm) fun sm => uniform_acting (uniform_draw sm _)
  | setConsecutivePindirs sm base count isOut =>
    refine .bind (checks.machine sm) fun sm => .bind (checks.below32 _ base) fun _ => ?_
    split
    · exact .refuse rfl
    · exact uniform_acting (uniform_draw sm _)
  | adjustWrap sm target wrap | adjustOutPins sm base count | adjustSetPins sm base count
  | adjustClkdiv sm int frac =>
    exact .bind (checks.machine sm) fun sm => uniform_acting (uniform_scratch sm _ _ _ _)
  | adjustInPins sm base | adjustSidesetPins sm base =>
    exact .bind (checks.machine sm) fun sm => .bind (checks.below32 _ base) fun _ =>
      uniform_acting (.access (driven_machine sm _) _)
  | isStalled sm | programCounter sm =>
    exact .bind (checks.machine sm) fun sm =>
      rules.returning _ (rules.reading _ (driven_machine sm _))
  | take sm =>
    exact .bind (checks.machine sm) fun sm =>
      rules.returning _ (.access (driven_rxf sm) _)
  | takeBlocking sm =>
    exact .bind (checks.machine sm) fun sm => rules.returning _
      (rules.takeBlocking polls sm (by decide) (driven_rxf sm))
  | isTxFull sm | isTxEmpty sm | isRxFull sm | isRxEmpty sm | txLevel sm | rxLevel sm =>
    exact .bind (checks.machine sm) fun sm =>
      rules.returning _ (rules.reading _ (by decide))
  | claim sm => exact .bind (checks.machine sm) fun _ => uniform_acting (uniform_claim _)
  | claimMask mask => exact .bind (checks.machines mask) fun _ => uniform_acting (uniform_claim _)
  | unclaim sm => exact .bind (checks.machine sm) fun sm => uniform_acting (uniform_unclaim sm)
  | claimUnused required => exact .bind (uniform_claimUnused required) fun _ => .pure _
  | isClaimed sm =>
    exact .bind (checks.machine sm) fun sm => .bind (uniform_isClaimed sm) fun _ => .pure _
  | canLoadAnywhere p => exact .bind (uniform_canLoadAnywhere p) fun _ => .pure _
  | canLoad p offset => exact .bind (uniform_canLoad p offset) fun _ => .pure _
  | load p offset => exact .bind (uniform_load p offset) fun _ => .pure _
  | unload p offset => exact uniform_acting (uniform_unload p offset)
  | clear => exact uniform_acting uniform_clear
  | allocate r checkOnly => exact .bind (uniform_allocate r checkOnly) fun _ => .pure _
  | loadInto base p offset | clearIn base => cases own

end Operation

end PioBlock
