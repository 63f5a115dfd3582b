import PioBlock.Proofs.Panics.Guarded
import PioBlock.Proofs.Panics.Preparation
import PioBlock.Proofs.UnmatchedUnload

/-! The control protocol once more, in checked arithmetic and with the numbers as a caller gives
them. Nothing here turns a number into a state machine or a slot, so an operation that makes a check
too late, or makes none, panics; that each of them follows its operation says that none does. -/

namespace PioBlock.Guarded

open Control Operation

variable {base : Word}

section

variable (fits : Layout.Fits base)

include fits

theorem follows_machines_write (a : Alias) (f : Field) (mask : Nat) :
    Follows base
      (checkMachines mask >>= fun _ => liftM (Checked.place f (BitVec.ofNat 32 mask)) >>=
        writeThrough a PioRegister.ctrl.index)
      (machines mask >>= fun s => Control.writeThrough a .ctrl (f.place s.word)) :=
  .machines mask fun small =>
    .checked (Checked.place_machines f small) (follows_access fits .ctrl _)

def setMaskEnabled (mask : Nat) (on : Bool) : Guarded Unit := do
  checkMachines mask
  let bits ← Checked.place Layout.smEnable (BitVec.ofNat 32 mask)
  writeThrough (if on then .set else .clear) PioRegister.ctrl.index bits

theorem follows_setMaskEnabled (mask : Nat) (on : Bool) :
    Follows base (setMaskEnabled mask on) (machines mask >>= fun s => enable s on) :=
  follows_machines_write fits (if on then .set else .clear) Layout.smEnable mask

def setEnabled (sm : Nat) (on : Bool) : Guarded Unit := do
  checkMachine sm
  setMaskEnabled (← Checked.single sm).toNat on

theorem follows_setEnabled (n : Nat) (on : Bool) :
    Follows base (setEnabled n on) (machine n >>= fun sm => enable sm.single on) :=
  .single (fun mask => follows_setMaskEnabled fits mask on) n

def restartMask (mask : Nat) : Guarded Unit := do
  checkMachines mask
  let bits ← Checked.place Layout.smRestart (BitVec.ofNat 32 mask)
  writeThrough .set PioRegister.ctrl.index bits

theorem follows_restartMask (mask : Nat) :
    Follows base (restartMask mask) (machines mask >>= Control.restart) :=
  follows_machines_write fits .set Layout.smRestart mask

def restartDividersMask (mask : Nat) : Guarded Unit := do
  checkMachines mask
  let bits ← Checked.place Layout.clkdivRestart (BitVec.ofNat 32 mask)
  writeThrough .set PioRegister.ctrl.index bits

theorem follows_restartDividersMask (mask : Nat) :
    Follows base (restartDividersMask mask) (machines mask >>= restartDividers) :=
  follows_machines_write fits .set Layout.clkdivRestart mask

def enableMaskInSync (mask : Nat) : Guarded Unit := do
  checkMachines mask
  let dividers ← Checked.place Layout.clkdivRestart (BitVec.ofNat 32 mask)
  let enables ← Checked.place Layout.smEnable (BitVec.ofNat 32 mask)
  writeThrough .set PioRegister.ctrl.index (dividers ||| enables)

theorem follows_enableMaskInSync (mask : Nat) :
    Follows base (enableMaskInSync mask) (machines mask >>= enableInSync) := by
  refine .machines mask fun small => ?_
  exact .checked (Checked.place_machines _ small)
    (.checked (Checked.place_machines _ small) (follows_access fits .ctrl _))

def restart (sm : Nat) : Guarded Unit := do
  checkMachine sm
  restartMask (← Checked.single sm).toNat

theorem follows_restart (n : Nat) :
    Follows base (restart n) (machine n >>= fun sm => Control.restart sm.single) :=
  .single (follows_restartMask fits) n

def restartDivider (sm : Nat) : Guarded Unit := do
  checkMachine sm
  restartDividersMask (← Checked.single sm).toNat

theorem follows_restartDivider (n : Nat) :
    Follows base (restartDivider n) (machine n >>= fun sm => restartDividers sm.single) :=
  .single (follows_restartDividersMask fits) n

def configure (sm : Nat) (c : Config) : Guarded Unit := do
  checkMachine sm
  let h ← get
  let writes ← Checked.configWrites h.base sm c
  ofControl (Control.transact (.writeAll writes))

theorem follows_configure (n : Nat) (config : Config) :
    Follows base (configure n config) (machine n >>= fun sm => Control.configure sm config) := by
  refine .machine n ?_
  rintro sm rfl
  refine .get_bind fun h mapped => ?_
  exact .checked (Checked.configWrites_eq_ok (mapped ▸ fits) sm config) (.transact _)

def execute (sm : Nat) (i : Instruction) : Guarded Unit := do
  checkMachine sm
  let index ← Checked.machineIndex sm .instr
  write index (i.setWidth 32)

theorem follows_execute (n : Nat) (i : Instruction) :
    Follows base (execute n i) (machine n >>= fun sm => Control.execute sm i) := by
  refine .machine n ?_
  rintro sm rfl
  exact .checked (Checked.machineIndex_eq_ok sm _) (follows_access fits (.machine sm .instr) _)

def isStalled (sm : Nat) : Guarded Bool := do
  checkMachine sm
  let index ← Checked.machineIndex sm .execctrl
  let execctrl ← read index
  return (← Checked.extract Layout.execStalled execctrl) != 0

theorem follows_isStalled (n : Nat) :
    Follows base (isStalled n) (machine n >>= Control.isStalled) := by
  refine .machine n ?_
  rintro sm rfl
  refine .checked (Checked.machineIndex_eq_ok sm _) ?_
  refine .bind (follows_access fits (.machine sm .execctrl) _) fun w => ?_
  exact .checked (Checked.extract_eq_ok _ w) (.pure _)

def executeBlocking (polls : Nat) (sm : Nat) (i : Instruction) : Guarded Unit := do
  execute sm i
  pollUntil (do return !(← isStalled sm)) polls

theorem follows_executeBlocking (polls n : Nat) (i : Instruction) :
    Follows base (executeBlocking polls n i)
      (machine n >>= fun sm => Control.executeBlocking polls sm i) := by
  by_cases small : n < 4
  · obtain ⟨sm, rfl⟩ : ∃ sm : StateMachine, n = sm.val := ⟨⟨n, small⟩, rfl⟩
    rw [machine_val, pure_bind]
    refine .bind (.at_machine (follows_execute fits _ i)) fun _ => .pollUntil (.returning ?_) polls
    exact .at_machine (follows_isStalled fits _)
  · rw [machine_of_not_lt small, executeBlocking, execute, checkMachine, if_neg small]
    exact .refuse _

def programCounter (sm : Nat) : Guarded Nat := do
  checkMachine sm
  let index ← Checked.machineIndex sm .addr
  let addr ← read index
  return (← Checked.extract Layout.addrPc addr).toNat

theorem follows_programCounter (n : Nat) :
    Follows base (programCounter n) (machine n >>= Control.programCounter) := by
  refine .machine n ?_
  rintro sm rfl
  refine .checked (Checked.machineIndex_eq_ok sm _) ?_
  refine .bind (follows_access fits (.machine sm .addr) _) fun w => ?_
  exact .checked (Checked.extract_eq_ok _ w) (.pure _)

def clearQueues (sm : Nat) : Guarded Unit := do
  checkMachine sm
  let index ← Checked.machineIndex sm .shiftctrl
  let bits ← Checked.mask Layout.fjoinRx
  writeThrough .toggle index bits
  let bits ← Checked.mask Layout.fjoinRx
  writeThrough .toggle index bits

theorem follows_clearQueues (n : Nat) :
    Follows base (clearQueues n) (machine n >>= Control.clearQueues) := by
  refine .machine n ?_
  rintro sm rfl
  refine .checked (Checked.machineIndex_eq_ok sm _) ?_
  refine .checked (Checked.mask_eq_ok _) (.bind (follows_access fits _ _) fun _ => ?_)
  exact .checked (Checked.mask_eq_ok _) (follows_access fits _ _)

def initialise (sm pc : Nat) (config : Option Config) : Guarded Unit := do
  checkMachine sm
  checkBelow32 .initialPc pc
  setEnabled sm false
  configure sm (config.getD .reset)
  clearQueues sm
  let flags ← Checked.debugFlags sm
  write PioRegister.fdebug.index flags
  restart sm
  restartDivider sm
  execute sm (.jmp pc)

theorem follows_initialise (n pc : Nat) (config : Option Config) :
    Follows base (initialise n pc config) (machine n >>= fun sm =>
      below32 .initialPc pc >>= fun pc => Control.initialise sm pc (config.getD .reset)) := by
  refine .machine n ?_
  rintro sm rfl
  refine .below32 pc ?_
  rintro pc rfl
  refine .bind (.at_machine (follows_setEnabled fits _ false)) fun _ => ?_
  refine .bind (.at_machine (follows_configure fits _ _)) fun _ => ?_
  refine .bind (.at_machine (follows_clearQueues fits _)) fun _ => ?_
  refine .checked (Checked.debugFlags_eq_ok sm) (.bind (follows_access fits .fdebug _) fun _ => ?_)
  refine .bind (.at_machine (follows_restart fits _)) fun _ => ?_
  refine .bind (.at_machine (follows_restartDivider fits _)) fun _ => ?_
  exact .at_machine (follows_execute fits _ _)

def put (sm : Nat) (data : Word) : Guarded Unit := do
  checkMachine sm
  let index ← Checked.add 32 4 sm
  write index data

theorem follows_put (n : Nat) (data : Word) :
    Follows base (put n data) (machine n >>= fun sm => Control.put sm data) := by
  refine .machine n ?_
  rintro sm rfl
  exact .checked (Checked.add_eq_ok (by omega)) (follows_access fits (.txf sm) _)

def take (sm : Nat) : Guarded Word := do
  checkMachine sm
  let index ← Checked.add 32 8 sm
  read index

theorem follows_take (n : Nat) : Follows base (take n) (machine n >>= Control.take) := by
  refine .machine n ?_
  rintro sm rfl
  exact .checked (Checked.add_eq_ok (by omega)) (follows_access fits (.rxf sm) _)

def status (flags : Field) (sm : Nat) : Guarded Bool := do
  checkMachine sm
  let w ← read PioRegister.fstat.index
  Checked.status w flags.lsb sm

theorem follows_status {flags : Field} (inside : flags.lsb + 4 ≤ 32) (n : Nat) :
    Follows base (status flags n) (machine n >>= Control.status flags) := by
  refine .machine n ?_
  rintro sm rfl
  refine .bind (follows_access fits .fstat _) fun w => ?_
  exact .checked_return (Checked.status_eq_ok w sm inside)

def level (field : Nat → Checked Field) (sm : Nat) : Guarded Word := do
  checkMachine sm
  let f ← field sm
  let w ← read PioRegister.flevel.index
  Checked.extract f w

theorem follows_level {field : Nat → Checked Field} {queue : StateMachine → Field}
    (found : ∀ sm : StateMachine, field sm.val = .ok (queue sm)) (n : Nat) :
    Follows base (level field n)
      (machine n >>= fun sm => do return (queue sm).extract (← readRegister .flevel)) := by
  refine .machine n ?_
  rintro sm rfl
  refine .checked (found sm) (.bind (follows_access fits .flevel _) fun w => ?_)
  exact .checked_return (Checked.extract_eq_ok _ w)

def putBlocking (polls sm : Nat) (data : Word) : Guarded Unit := do
  checkMachine sm
  pollUntil (do return !(← status Layout.txFull sm)) polls
  put sm data

theorem follows_putBlocking (polls n : Nat) (data : Word) :
    Follows base (putBlocking polls n data)
      (machine n >>= fun sm => Control.putBlocking polls sm data) := by
  refine .machine n ?_
  rintro sm rfl
  refine .bind (.pollUntil (.returning ?_) polls) fun _ => ?_
  · exact .at_machine (follows_status fits (by decide) _)
  · exact .at_machine (follows_put fits _ data)

def takeBlocking (polls sm : Nat) : Guarded Word := do
  checkMachine sm
  pollUntil (do return !(← status Layout.rxEmpty sm)) polls
  take sm

theorem follows_takeBlocking (polls n : Nat) :
    Follows base (takeBlocking polls n) (machine n >>= Control.takeBlocking polls) := by
  refine .machine n ?_
  rintro sm rfl
  refine .bind (.pollUntil (.returning ?_) polls) fun _ => ?_
  · exact .at_machine (follows_status fits (by decide) _)
  · exact .at_machine (follows_take fits _)

def drain (polls sm : Nat) : Guarded Unit := do
  checkMachine sm
  let index ← Checked.machineIndex sm .shiftctrl
  let shiftctrl ← read index
  let i ← Checked.drainInstruction shiftctrl
  pollUntil (do
    if ← status Layout.txEmpty sm then return true
    execute sm i
    return false) polls

theorem follows_drain (polls n : Nat) :
    Follows base (drain polls n) (machine n >>= Control.drain polls) := by
  refine .machine n ?_
  rintro sm rfl
  refine .checked (Checked.machineIndex_eq_ok sm _) ?_
  refine .bind (follows_access fits (.machine sm .shiftctrl) _) fun w => ?_
  refine .checked (Checked.drainInstruction_eq_ok w) (.pollUntil (.bind ?_ fun isEmpty => ?_) polls)
  · exact .at_machine (follows_status fits (by decide) _)
  · cases isEmpty with
    | true => exact .pure _
    | false => exact .bind (.at_machine (follows_execute fits _ _)) fun _ => .pure _

def draw (sm : Nat) (strokes : Checked (List Stroke)) : Guarded Unit := do
  let h ← get
  let strokes ← strokes
  let (pinctrl, writes) ← Checked.strokeWrites h.base sm strokes
  ofControl (transact (restoring pinctrl writes))

theorem follows_draw {guarded : Checked (List Stroke)} {strokes : List Stroke}
    (found : guarded = .ok strokes) (sm : StateMachine) :
    Follows base (draw sm.val guarded) (Control.draw sm strokes) := by
  refine .get_bind fun h mapped => .checked found ?_
  exact .checked (Checked.strokeWrites_eq_ok (mapped ▸ fits) sm strokes) (.transact _)

def setPins (sm : Nat) (strokes : Checked (List Stroke)) : Guarded Unit := do
  checkMachine sm
  draw sm strokes

theorem follows_setPins {guarded : Checked (List Stroke)} {strokes : List Stroke}
    (found : guarded = .ok strokes) (n : Nat) :
    Follows base (setPins n guarded) (machine n >>= fun sm => Control.draw sm strokes) := by
  refine .machine n ?_
  rintro sm rfl
  exact follows_draw fits found sm

def setConsecutivePindirs (sm base count : Nat) (isOut : Bool) : Guarded Unit := do
  checkMachine sm
  checkBelow32 .pin base
  if 32 < count then refuse (.argument (.pinCount count))
  else draw sm (Checked.consecutive base count isOut)

theorem follows_setConsecutivePindirs (n pin count : Nat) (isOut : Bool) :
    Follows base (setConsecutivePindirs n pin count isOut) (machine n >>= fun sm =>
      below32 .pin pin >>= fun pin =>
        if 32 < count then Control.refuse (.argument (.pinCount count))
        else Control.draw sm (Stroke.consecutive pin.val count isOut)) := by
  refine .machine n ?_
  rintro sm rfl
  refine .below32 pin ?_
  rintro pin rfl
  split
  · exact .refuse _
  · exact follows_draw fits (Checked.consecutive_eq_ok pin.isLt count isOut) sm

def scratch (s : Setting) : Guarded Config := do
  let outcome ← ((Checked.setter s).apply .reset).run
  ofExcept .config outcome

def adjust (s : Setting) (sm : Nat) (r : MachineRegister) (word : Config → Word) (f g : Field) :
    Guarded Unit := do
  checkMachine sm
  let c ← scratch s
  let index ← Checked.machineIndex sm r
  let low ← Checked.mask f
  let high ← Checked.mask g
  change index ⟨word c, low ||| high, false⟩

theorem follows_adjust (s : Setting) (n : Nat) (r : MachineRegister) (word : Config → Word)
    (f g : Field) :
    Follows base (adjust s n r word f g) (machine n >>= fun sm => Control.scratch s >>= fun c =>
      Control.adjust sm r (word c) (f.mask ||| g.mask)) := by
  refine .machine n ?_
  rintro sm rfl
  refine .bind (.checked ((Checked.computes_setter s).apply .reset) (.ofExcept _ _)) fun c => ?_
  refine .checked (Checked.machineIndex_eq_ok sm r) (.checked (Checked.mask_eq_ok f) ?_)
  exact .checked (Checked.mask_eq_ok g) (follows_access fits (.machine sm r) _)

def adjustPin (sm base : Nat) (f : Field) : Guarded Unit := do
  checkMachine sm
  checkBelow32 .pin base
  let bits ← Checked.place f (BitVec.ofNat 32 base)
  let mask ← Checked.mask f
  let index ← Checked.machineIndex sm .pinctrl
  change index ⟨bits, mask, false⟩

theorem follows_adjustPin (n pin : Nat) (f : Field) :
    Follows base (adjustPin n pin f) (machine n >>= fun sm => below32 .pin pin >>= fun pin =>
      Control.adjust sm .pinctrl (f.place (BitVec.ofNat 32 pin.val)) f.mask) := by
  refine .machine n ?_
  rintro sm rfl
  refine .below32 pin ?_
  rintro pin rfl
  refine .checked (Checked.place_eq_ok f _) (.checked (Checked.mask_eq_ok f) ?_)
  exact .checked (Checked.machineIndex_eq_ok sm _) (follows_access fits (.machine sm .pinctrl) _)

end

theorem setBits_ne_nil {s : MachineSet} (nonempty : s ≠ 0) : setBits s ≠ [] := by
  revert s
  decide

def claimMask (mask : Nat) : Guarded Unit := do
  checkMachines mask
  let h ← get
  let machines : MachineSet := BitVec.ofNat 4 mask
  if h.claimed &&& machines = 0 then set { h with claimed := h.claimed ||| machines }
  else
    let claimed ← Checked.setBits (MachineSet.word (h.claimed &&& machines))
    refuse (.claimConflict claimed)

theorem follows_claimMask (mask : Nat) :
    Follows base (claimMask mask) (machines mask >>= Control.claim) := by
  refine .machines mask fun _ => ?_
  refine .get_bind fun h mapped => ?_
  dsimp only
  by_cases free : h.claimed &&& BitVec.ofNat 4 mask = 0
  · rw [if_pos free, free]
    exact .set mapped
  · -- The operation reports the members that are taken only if there are any.
    obtain ⟨sm, rest, listed⟩ := List.exists_cons_of_ne_nil (setBits_ne_nil free)
    rw [if_neg free]
    refine .checked (Checked.setBits_word _) ?_
    rw [listed]
    exact .refuse _

def claim (sm : Nat) : Guarded Unit := do
  checkMachine sm
  claimMask (← Checked.single sm).toNat

theorem follows_claim (n : Nat) :
    Follows base (claim n) (machine n >>= fun sm => Control.claim sm.single) :=
  .single follows_claimMask n

theorem setWidth_single (sm : StateMachine) : (sm.single.setWidth 8).setWidth 4 = sm.single := by
  revert sm
  decide

def unclaim (sm : Nat) : Guarded Unit := do
  checkMachine sm
  let bit ← Checked.single sm
  modify fun h => { h with claimed := h.claimed &&& ~~~bit.setWidth 4 }

theorem follows_unclaim (n : Nat) :
    Follows base (unclaim n) (machine n >>= Control.unclaim) := by
  refine .machine n ?_
  rintro sm rfl
  refine .checked (Checked.single_eq_ok sm) ?_
  rw [setWidth_single]
  exact .modify fun _ mapped => mapped

def claimUnused (required : Bool) : Guarded (Option StateMachine) := do
  let h ← get
  match ← Checked.lowestFree h.claimed StateMachine.all with
  | some sm =>
    let bit ← Checked.single sm.val
    set { h with claimed := h.claimed ||| bit.setWidth 4 }
    return some sm
  | none => if required then refuse .noUnusedStateMachine else return none

theorem follows_claimUnused (required : Bool) :
    Follows base (claimUnused required) (Control.claimUnused required) := by
  refine .get_bind fun h mapped => .checked (Checked.lowestFree_eq_ok h.claimed _) ?_
  rw [MachineSet.lowestFree?]
  cases StateMachine.all.find? (!h.claimed.has ·) with
  | some sm =>
    refine .checked (Checked.single_eq_ok sm) ?_
    rw [setWidth_single]
    exact .bind (.set mapped) fun _ => .pure _
  | none =>
    cases required with
    | true => exact .refuse _
    | false => exact .pure _

def isClaimed (sm : Nat) : Guarded Bool := do
  checkMachine sm
  let h ← get
  Checked.has h.claimed sm

theorem follows_isClaimed (n : Nat) :
    Follows base (isClaimed n) (machine n >>= Control.isClaimed) := by
  refine .machine n ?_
  rintro sm rfl
  refine .get_bind fun h _ => ?_
  exact .checked_return (Checked.has_eq_ok h.claimed sm)

def canLoad (p : Program) (offset : Option Nat) : Guarded Bool := do
  let asked ← Checked.request p offset
  let r ← ofExcept .ofRequestFault asked
  return (← ofControl (Control.allocate r true)).isSome

theorem follows_canLoad (p : Program) (offset : Option Nat) :
    Follows base (canLoad p offset) (Control.canLoad p offset) := by
  refine .checked (Checked.request_eq_ok p offset) (.bind (.ofExcept _ _) fun r => ?_)
  exact .returning (follows_allocate r true)

/-- Only an error is taken for a no. -/
def canLoadAnywhere (p : Program) : Guarded Bool :=
  tryCatch (canLoad p none) fun
    | .error _ => pure false
    | halt => throw halt

theorem follows_canLoadAnywhere (p : Program) :
    Follows base (canLoadAnywhere p) (Control.canLoadAnywhere p) := by
  constructor
  · intro h mapped
    obtain ⟨b, asked⟩ := start_canLoad_none p h
    have follows : Follows base (canLoad p none) (Control.canLoad p none) := follows_canLoad p none
    have guarded := follows.same h mapped
    rw [start_ofControl, asked] at guarded
    rw [canLoadAnywhere, start_tryCatch_of_ok guarded, start_ofControl, Control.canLoadAnywhere,
      start_tryCatch, asked]
    rfl
  · intro h mapped
    obtain ⟨b, asked⟩ := start_canLoad_none p h
    rw [Control.canLoadAnywhere, start_tryCatch, asked]
    exact calm_ok b mapped

theorem offset_lt_of_request {p : Program} {asked : Option Nat} {r : SlotRequest} {f : Placement}
    (request : p.request asked = .ok r) (listed : f ∈ r.candidates) : f.offset < 32 := by
  unfold SlotRequest.candidates at listed
  cases fixed : r.offset with
  | some offset =>
    rw [fixed] at listed
    obtain rfl := List.mem_singleton.mp listed
    exact Program.request_offset_lt request fixed
  | none =>
    rw [fixed] at listed
    obtain ⟨offset, lt, rfl⟩ := List.mem_map.mp listed
    exact List.mem_range.mp lt

def loadInto (base : Word) (p : Program) (offset : Option Nat) : Guarded Nat := do
  let asked ← Checked.request p offset
  let r ← ofExcept .ofRequestFault asked
  match ← ofControl (Control.allocate r false) with
  | none => refuse .noSpace
  | some found =>
    let taken ← Checked.slotsAt p found.offset
    let writes ←
      Checked.loadWrites base p.isRelocatable found.offset found.offset p.instructions
    match ← ofControl (Control.attempt (.writeAll writes)) with
    | .ok () => return found.offset
    | .error e =>
      modify fun h => { h with occupancy := h.occupancy &&& ~~~taken }
      refuse (.register e)

theorem follows_loadInto {target : Word} (fits : Layout.Fits target) (p : Program)
    (offset : Option Nat) :
    Follows base (loadInto target p offset) (Control.loadInto target p offset) := by
  refine .checked (Checked.request_eq_ok p offset) (.ofExcept_bind fun r asked => ?_)
  refine .allocate_bind fun found listed => ?_
  cases found with
  | none => exact .refuse _
  | some f =>
    have lt := offset_lt_of_request asked (listed f rfl)
    refine .checked (Checked.slotsAt_eq_ok p _) (.checked (Checked.loadWrites_eq_ok fits p lt) ?_)
    refine .bind (.attempt _) fun outcome => ?_
    cases outcome with
    | ok _ => exact .pure _
    | error e => exact .bind (.modify fun _ mapped => mapped) fun _ => .refuse _

def load (p : Program) (offset : Option Nat) : Guarded Nat := do loadInto (← get).base p offset

theorem follows_load (fits : Layout.Fits base) (p : Program) (offset : Option Nat) :
    Follows base (load p offset) (Control.load p offset) :=
  .get_bind fun _ mapped => follows_loadInto (mapped ▸ fits) p offset

def clearIn (base : Word) : Guarded Unit := do
  let writes ← Checked.clearWrites base
  ofControl (Control.transact (.writeAll writes))
  modify fun h => { h with occupancy := 0 }

theorem follows_clearIn {target : Word} (fits : Layout.Fits target) :
    Follows base (clearIn target) (Control.clearIn target) :=
  .checked (Checked.clearWrites_eq_ok fits)
    (.bind (.transact _) fun _ => .modify fun _ mapped => mapped)

def clear : Guarded Unit := do clearIn (← get).base

theorem follows_clear (fits : Layout.Fits base) : Follows base clear Control.clear :=
  .get_bind fun _ mapped => follows_clearIn (mapped ▸ fits)

def unload (p : Program) (offset : Nat) : Guarded Unit := do
  let asked ← Checked.request p (some offset)
  let _ ← ofExcept .ofRequestFault asked
  let slots ← Checked.slotsAt p offset
  let h ← get
  if h.occupancy &&& slots = slots then set { h with occupancy := h.occupancy &&& ~~~slots }
  else throw (.panic (.breach ⟨slots, offset, h.occupancy⟩))

theorem start_unload (p : Program) (offset : Nat) (h : Handle) :
    (unload p offset).start h = (ofControl (Control.unload p offset)).start h := by
  rw [start_ofControl, Control.start_unload, unload, Checked.request_eq_ok,
    Checked.slotsAt_eq_ok]
  cases p.request (some offset) with
  | error e => rfl
  | ok r =>
    change (ite (h.occupancy &&& p.slotsAt offset = p.slotsAt offset) _ _ : Guarded Unit).start h = _
    dsimp only
    split
    · rfl
    · rfl

end PioBlock.Guarded
