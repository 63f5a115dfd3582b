import PioBlock.Proofs.Panics.Ones
import PioBlock.Proofs.ProgramConfig
import PioBlock.Control.Load
import PioBlock.Control.Pins
import PioBlock.Control.Queue

/-! What a call works out before its accesses, in checked arithmetic: the words of a
configuration, the slots that a program asks for, the words that load it, and the strokes that
drive pins. The checks that a setter or the building of a program makes are what keeps the sums
and shifts here within their widths. -/

namespace PioBlock.Checked

theorem mapM_eq_ok {α β : Type} {f : α → Checked β} {g : α → β} {list : List α}
    (each : ∀ a ∈ list, f a = .ok (g a)) : list.mapM f = .ok (list.map g) := by
  induction list with
  | nil => rfl
  | cons a rest ih =>
    rw [List.mapM_cons, each a (List.mem_cons_self ..), ok_bind,
      ih fun b later => each b (List.mem_cons_of_mem _ later)]
    rfl

/-- A setter refuses, or works on a configuration by sums and shifts that may panic. -/
abbrev Setter := ExceptT ConfigError (StateT Config Checked)

namespace Setter

def on {α : Type} (x : Setter α) (c : Config) : Checked (Except ConfigError α × Config) :=
  x.run.run c

def apply (x : Setter Unit) (c : Config) : ExceptT ConfigError Checked Config :=
  .mk do
    let (outcome, left) ← x.on c
    return outcome.map fun _ => left

def update (change : Config → Checked Config) : Setter Unit := do set (← change (← get))

end Setter

/-- On every configuration `x` ends as `y` does, and leaves the same one. -/
def Computes {α : Type} (x : Setter α) (y : Config.Setter α) : Prop := ∀ c, x.on c = .ok (y.on c)

namespace Computes

variable {α β : Type}

theorem lift (outcome : Except ConfigError α) : Computes (liftM outcome) (liftM outcome) :=
  fun _ => rfl

theorem throw (e : ConfigError) :
    Computes (MonadExcept.throw e : Setter α) (MonadExcept.throw e) := fun _ => rfl

theorem update {change : Config → Checked Config} {f : Config → Config}
    (same : ∀ c, change c = .ok (f c)) : Computes (Setter.update change) (modify f) := by
  obtain rfl : change = fun c => .ok (f c) := funext same
  exact fun _ => rfl

theorem bind {x : Setter α} {y : Config.Setter α} {next : α → Setter β}
    {plain : α → Config.Setter β} (first : Computes x y)
    (rest : ∀ a, Computes (next a) (plain a)) : Computes (x >>= next) (y >>= plain) := by
  intro c
  change (x.on c >>= fun ended => ExceptT.bindCont next ended.1 ended.2) =
    .ok (ExceptT.bindCont plain (y.on c).1 (y.on c).2)
  rw [first c, ok_bind]
  cases (y.on c).1 with
  | error e => rfl
  | ok a => exact rest a _

theorem apply {x : Setter Unit} {y : Config.Setter Unit} (same : Computes x y) (c : Config) :
    (x.apply c).run = .ok (y.apply c) := by
  change (x.on c >>= _) = _
  rw [same c]
  rfl

end Computes

def setClkdivIntFrac (int : BitVec 16) (frac : BitVec 8) : Setter Unit := do
  if int = 0 ∧ frac ≠ 0 then throw ⟨.clkdivFrac, frac.toNat⟩
  .update fun c => do
    let clkdiv ← insert Layout.clkdivInt c.clkdiv (int.setWidth 32)
    let clkdiv ← insert Layout.clkdivFrac clkdiv (frac.setWidth 32)
    return { c with clkdiv }

theorem computes_setClkdivIntFrac (int : BitVec 16) (frac : BitVec 8) :
    Computes (setClkdivIntFrac int frac) (Config.setClkdivIntFrac int frac) := by
  unfold setClkdivIntFrac Config.setClkdivIntFrac
  split
  · exact (Computes.throw _).bind fun _ => .update fun c => by simp only [insert_eq_ok, ok_bind]; rfl
  · exact .update fun c => by simp only [insert_eq_ok, ok_bind]; rfl

def setWrap (target wrap : Nat) : Setter Unit := do
  Config.check .wrapTarget target 31
  Config.check .wrap wrap 31
  .update fun c => do
    let execctrl ← insert Layout.wrapBottom c.execctrl (Config.number target)
    let execctrl ← insert Layout.wrapTop execctrl (Config.number wrap)
    return { c with execctrl }

theorem computes_setWrap (target wrap : Nat) :
    Computes (setWrap target wrap) (Config.setWrap target wrap) :=
  (Computes.lift _).bind fun _ => (Computes.lift _).bind fun _ => .update fun c => by
    simp only [insert_eq_ok, ok_bind]
    rfl

def setSideset (bitCount : Nat) (isOptional pindirs : Bool) : Setter Unit := do
  Config.check .sidesetCount bitCount 5
  if isOptional ∧ bitCount = 0 then throw ⟨.optionalSidesetCount, bitCount⟩
  .update fun c => do
    let pinctrl ← insert Layout.sidesetCount c.pinctrl (Config.number bitCount)
    let execctrl ← insert Layout.sideEnable c.execctrl (Config.flag isOptional)
    let execctrl ← insert Layout.sidePindir execctrl (Config.flag pindirs)
    return { c with pinctrl, execctrl }

theorem computes_setSideset (bitCount : Nat) (isOptional pindirs : Bool) :
    Computes (setSideset bitCount isOptional pindirs)
      (Config.setSideset bitCount isOptional pindirs) := by
  refine (Computes.lift _).bind fun _ => ?_
  split
  · exact (Computes.throw _).bind fun _ => .update fun c => by simp only [insert_eq_ok, ok_bind]; rfl
  · exact .update fun c => by simp only [insert_eq_ok, ok_bind]; rfl

def setter : Setting → Setter Unit
  | .clkdivIntFrac int frac => setClkdivIntFrac int frac
  | .clkdiv divisor =>
    let x := divisor.toFloat
    if 1 ≤ x ∧ x ≤ 65536 then
      if 65536 ≤ x then setClkdivIntFrac 0 0
      else
        let int := x.toUInt16
        let frac := ((x - int.toFloat32) * 256).toUInt8
        setClkdivIntFrac int.toBitVec frac.toBitVec
    else throw ⟨.clkdiv, divisor.toInt64⟩
  | .wrap target top => setWrap target top
  | .jmpPin pin => do
    Config.check .jmpPin pin 31
    .update fun c => do
      return { c with execctrl := ← insert Layout.jmpPin c.execctrl (Config.number pin) }
  | .movStatus source level => do
    Config.check .statusN level 15
    .update fun c => do
      let execctrl ← insert Layout.statusSel c.execctrl (Config.flag (source = .rxLessThan))
      let execctrl ← insert Layout.statusN execctrl (Config.number level)
      return { c with execctrl }
  | .sideset bitCount isOptional pindirs => setSideset bitCount isOptional pindirs
  | .outSpecial sticky hasEnablePin enableIndex => do
    Config.check .outEnSel enableIndex 31
    .update fun c => do
      let execctrl ← insert Layout.outSticky c.execctrl (Config.flag sticky)
      let execctrl ← insert Layout.inlineOutEn execctrl (Config.flag hasEnablePin)
      let execctrl ← insert Layout.outEnSel execctrl (Config.number enableIndex)
      return { c with execctrl }
  | .inShift shiftRight autopush threshold => do
    Config.checkThreshold .pushThreshold threshold
    .update fun c => do
      let shiftctrl ← insert Layout.inShiftdir c.shiftctrl (Config.flag shiftRight)
      let shiftctrl ← insert Layout.autopush shiftctrl (Config.flag autopush)
      let shiftctrl ← insert Layout.pushThresh shiftctrl (Config.number threshold)
      return { c with shiftctrl }
  | .outShift shiftRight autopull threshold => do
    Config.checkThreshold .pullThreshold threshold
    .update fun c => do
      let shiftctrl ← insert Layout.outShiftdir c.shiftctrl (Config.flag shiftRight)
      let shiftctrl ← insert Layout.autopull shiftctrl (Config.flag autopull)
      let shiftctrl ← insert Layout.pullThresh shiftctrl (Config.number threshold)
      return { c with shiftctrl }
  | .queueJoin join => .update fun c => do
    let shiftctrl ← insert Layout.fjoinTx c.shiftctrl (Config.flag (join = .tx))
    let shiftctrl ← insert Layout.fjoinRx shiftctrl (Config.flag (join = .rx))
    return { c with shiftctrl }
  | .outPins base count => do
    Config.check .outBase base 31
    Config.check .outCount count 32
    .update fun c => do
      let pinctrl ← insert Layout.outBase c.pinctrl (Config.number base)
      let pinctrl ← insert Layout.outCount pinctrl (Config.number count)
      return { c with pinctrl }
  | .setPins base count => do
    Config.check .setBase base 31
    Config.check .setCount count 5
    .update fun c => do
      let pinctrl ← insert Layout.setBase c.pinctrl (Config.number base)
      let pinctrl ← insert Layout.setCount pinctrl (Config.number count)
      return { c with pinctrl }
  | .inPins base => do
    Config.check .inBase base 31
    .update fun c => do
      return { c with pinctrl := ← insert Layout.inBase c.pinctrl (Config.number base) }
  | .sidesetPins base => do
    Config.check .sidesetBase base 31
    .update fun c => do
      return { c with pinctrl := ← insert Layout.sidesetBase c.pinctrl (Config.number base) }

theorem computes_setter (s : Setting) : Computes (setter s) s.setter := by
  cases s with
  | clkdivIntFrac int frac => exact computes_setClkdivIntFrac int frac
  | clkdiv divisor =>
    unfold setter Setting.setter Config.setClkdiv
    dsimp only
    split
    · split <;> exact computes_setClkdivIntFrac _ _
    · exact .throw _
  | wrap target top => exact computes_setWrap target top
  | sideset bitCount isOptional pindirs => exact computes_setSideset bitCount isOptional pindirs
  | queueJoin join =>
    refine .update fun c => ?_
    simp only [insert_eq_ok, ok_bind]
    rfl
  | outPins base count | setPins base count =>
    refine (Computes.lift _).bind fun _ => (Computes.lift _).bind fun _ => .update fun c => ?_
    simp only [insert_eq_ok, ok_bind]
    rfl
  | jmpPin n | movStatus source n | outSpecial sticky hasEnablePin n | inShift right auto n
  | outShift right auto n | inPins n | sidesetPins n =>
    refine (Computes.lift _).bind fun _ => .update fun c => ?_
    simp only [insert_eq_ok, ok_bind]
    rfl

def rebase (p : Program) (offset : Nat) (slot : Slot) : Checked Nat :=
  if p.isRelocatable then do return (← add 8 slot.val offset) % 32 else return slot.val

theorem rebase_eq_ok (p : Program) {offset : Nat} (le : offset ≤ 31) (slot : Slot) :
    rebase p offset slot = .ok ((slot.val + if p.isRelocatable then offset else 0) % 32) := by
  unfold rebase
  split
  · rw [add_eq_ok (by omega), ok_bind]
    rfl
  · rw [Nat.add_zero, Nat.mod_eq_of_lt slot.isLt]
    rfl

def totalBits (s : SideSet) : Checked Nat := add 8 s.count s.isOptional.toNat

theorem totalBits_eq_ok {s : SideSet} (fits : s.totalBits ≤ 5) :
    totalBits s = .ok s.totalBits := by
  unfold SideSet.totalBits at fits
  exact add_eq_ok (by omega)

def forProgram (p : Program) (offset : Nat) : ExceptT ConfigError Checked Config := do
  Config.check .offset offset 31
  let target ← rebase p offset p.wrapTarget
  let wrap ← rebase p offset p.wrap
  let setup : Setter Unit := do
    setWrap target wrap
    setSideset (← totalBits p.sideSet) p.sideSet.isOptional p.sideSet.pindirs
  setup.apply .reset

theorem forProgram_eq_ok (p : Program) (offset : Nat) :
    (forProgram p offset).run = .ok (Config.forProgram p offset) := by
  unfold forProgram Config.forProgram
  -- The check of the offset is what keeps the rebased slots within a byte.
  cases small : Config.check .offset offset 31 with
  | error e => rfl
  | ok _ =>
    have le : offset ≤ 31 := Config.check_eq_ok_iff.mp small
    rw [rebase_eq_ok p le, rebase_eq_ok p le, totalBits_eq_ok p.sideSet_le]
    let shift := if p.isRelocatable then offset else 0
    have wraps := computes_setWrap ((p.wrapTarget.val + shift) % 32) ((p.wrap.val + shift) % 32)
    exact (wraps.bind fun _ => computes_setSideset _ _ _).apply .reset

def configWrites (base : Word) (sm : Nat) (c : Config) : Checked (List (Word × Word)) :=
  [(MachineRegister.clkdiv, c.clkdiv), (.execctrl, c.execctrl), (.shiftctrl, c.shiftctrl),
    (.pinctrl, c.pinctrl)].mapM fun pair => do
      return (← address base (← machineIndex sm pair.1), pair.2)

theorem configWrites_eq_ok {h : Handle} (fits : Layout.Fits h.base) (sm : StateMachine)
    (c : Config) : configWrites h.base sm.val c =
      .ok ((Control.configWords sm c).map fun (r, word) => (h.address r, word)) :=
  mapM_eq_ok (g := fun pair : MachineRegister × Word => (h.address (.machine sm pair.1), pair.2))
    fun pair _ => by
      rw [machineIndex_eq_ok, ok_bind, address_eq_ok fits]
      rfl

def lastSlot (p : Program) : Checked Nat := do
  return (← add 8 p.start (← sub p.length 1)) % 32

theorem lastSlot_eq_ok (p : Program) :
    lastSlot p = .ok (Draft.lastSlot p.origin p.length).val := by
  have start_lt : p.start < 32 := by
    unfold Program.start
    cases p.origin with
    | none => decide
    | some origin => exact origin.isLt
  have nonempty : 0 < p.length := p.instructions_pos
  have short : p.length ≤ 32 := p.instructions_le
  rw [lastSlot, sub_eq_ok nonempty, ok_bind, add_eq_ok (by omega)]
  rfl

def slotsAt (p : Program) (offset : Nat) : Checked Word := do
  return (← lowBits p.length).rotateLeft (offset % 32)

theorem slotsAt_eq_ok (p : Program) (offset : Nat) : slotsAt p offset = .ok (p.slotsAt offset) := by
  rw [slotsAt, lowBits_eq_ok, ok_bind, BitVec.rotateLeft_mod_eq_rotateLeft]
  rfl

/-- What the program asks for. A program keeps the mask of its own place from when it was built. -/
def request (p : Program) (offset : Option Nat) : Checked (Except RequestFault SlotRequest) :=
  match p.origin, offset with
  | some origin, some offset =>
    if origin.val = offset then return .ok ⟨p.allocationMask, some origin.val⟩
    else return .error (.originMismatch origin offset)
  | some origin, none => return .ok ⟨p.allocationMask, some origin.val⟩
  | none, some offset =>
    if offset < 32 then do return .ok ⟨← slotsAt p offset, some offset⟩
    else return .error (.outside offset)
  | none, none => do return .ok ⟨← lowBits p.length, none⟩

theorem request_eq_ok (p : Program) (offset : Option Nat) :
    request p offset = .ok (p.request offset) := by
  unfold request Program.request
  simp only [slotsAt_eq_ok, lowBits_eq_ok, ok_bind, pure_eq_ok]
  cases p.origin with
  | some origin =>
    cases offset with
    | some offset => exact (apply_ite Except.ok (origin.val = offset) _ _).symm
    | none => rfl
  | none =>
    cases offset with
    | some offset => exact (apply_ite Except.ok (offset < 32) _ _).symm
    | none => rfl

def relocate (offset : Nat) (i : Instruction) : Checked Instruction :=
  if i.isJmp then do
    let target ← add 16 (i &&& Instruction.operandMask).toNat offset
    return (i &&& ~~~Instruction.operandMask) |||
      (BitVec.ofNat 16 target &&& Instruction.operandMask)
  else return i

theorem relocate_eq_ok {offset : Nat} (lt : offset < 32) (i : Instruction) :
    relocate offset i = .ok (i.relocate offset) := by
  have small : (i &&& Instruction.operandMask).toNat ≤ 31 := by
    rw [BitVec.toNat_and]
    exact Nat.and_le_right
  unfold relocate Instruction.relocate
  split
  · rw [add_eq_ok (by omega), ok_bind, BitVec.ofNat_add, BitVec.ofNat_toNat, BitVec.setWidth_eq]
    rfl
  · rfl

def placed (isRelocatable : Bool) (offset : Nat) (i : Instruction) : Checked Instruction :=
  if isRelocatable then relocate offset i else return i

theorem placed_eq_ok {offset : Nat} (lt : offset < 32) (isRelocatable : Bool) (i : Instruction) :
    placed isRelocatable offset i = .ok (if isRelocatable then i.relocate offset else i) := by
  unfold placed
  split
  · exact relocate_eq_ok lt i
  · rfl

/-- The writes that load instructions from slot `slot` on. The slot is counted in a byte, before
it is known whether there is an instruction left. -/
def loadWrites (base : Word) (isRelocatable : Bool) (offset slot : Nat) :
    List Instruction → Checked (List (Word × Word))
  | [] => do
    let _ ← add 8 slot 1
    return []
  | i :: rest => do
    let next ← add 8 slot 1
    let word ← placed isRelocatable offset i
    let a ← address base (← add 32 18 (slot % 32))
    return (a, word.setWidth 32) :: (← loadWrites base isRelocatable offset next rest)

theorem loadWrites_eq_ok_from {base : Word} (fits : Layout.Fits base) (p : Program) {offset : Nat}
    (lt : offset < 32) (rest : List Instruction) (n : Nat) (short : n + rest.length ≤ 32) :
    loadWrites base p.isRelocatable offset (offset + n) rest =
      .ok ((rest.zipIdx n).map fun numbered =>
        (Layout.address base (PioRegister.instrMem ⟨(offset + numbered.2) % 32, by omega⟩).index,
          (if p.isRelocatable then numbered.1.relocate offset else numbered.1).setWidth 32)) := by
  induction rest generalizing n with
  | nil =>
    rw [loadWrites, add_eq_ok (by omega)]
    rfl
  | cons i rest ih =>
    rw [List.length_cons] at short
    have found := address_eq_ok fits (.instrMem ⟨(offset + n) % 32, by omega⟩)
    rw [PioRegister.index] at found
    rw [loadWrites, add_eq_ok (by omega), ok_bind, placed_eq_ok lt, ok_bind,
      add_eq_ok (by omega), ok_bind, found, ok_bind, Nat.add_assoc, ih (n + 1) (by omega)]
    rfl

theorem loadWrites_eq_ok {base : Word} (fits : Layout.Fits base) (p : Program) {offset : Nat}
    (lt : offset < 32) : loadWrites base p.isRelocatable offset offset p.instructions =
      .ok (Control.loadWrites base p offset) := by
  have from_first := loadWrites_eq_ok_from fits p lt p.instructions 0
    (by rw [Nat.zero_add]; exact p.instructions_le)
  rw [Nat.add_zero] at from_first
  rw [from_first, Control.loadWrites, Program.loaded, List.map_map]
  rfl

def clearWrites (base : Word) : Checked (List (Word × Word)) :=
  (List.finRange 32).mapM fun slot => do return (← address base (← add 32 18 slot.val), 0)

theorem clearWrites_eq_ok {base : Word} (fits : Layout.Fits base) :
    clearWrites base = .ok (Control.clearWrites base) :=
  mapM_eq_ok fun slot _ => by
    have found := address_eq_ok fits (.instrMem slot)
    rw [PioRegister.index] at found
    rw [add_eq_ok (by omega), ok_bind, found]
    rfl

def encode (opcode : Instruction) (destination operand : Nat) : Checked Instruction := do
  return opcode ||| (← shl (BitVec.ofNat 16 destination) 5) |||
    (BitVec.ofNat 16 operand &&& Instruction.operandMask)

theorem encode_eq_ok (opcode : Instruction) (destination operand : Nat) :
    encode opcode destination operand = .ok (Instruction.encode opcode destination operand) := by
  have shifted : BitVec.ofNat 16 destination <<< 5 = BitVec.ofNat 16 (destination <<< 5) := by
    refine BitVec.eq_of_toNat_eq ?_
    simp [Nat.shiftLeft_eq, Nat.mod_mul_mod]
  rw [encode, shl_eq_ok (by decide), ok_bind, shifted]
  rfl

def pull (ifEmpty block : Bool) : Checked Instruction := do
  return 0x8080 ||| (← shl ((BitVec.ofBool ifEmpty).setWidth 16) 6) |||
    (← shl ((BitVec.ofBool block).setWidth 16) 5)

def drainInstruction (shiftctrl : Word) : Checked Instruction := do
  if (← extract Layout.autopull shiftctrl) != 0 then encode 0x6000 OutDestination.null.code 32
  else pull false false

theorem drainInstruction_eq_ok (shiftctrl : Word) :
    drainInstruction shiftctrl = .ok (Control.drainInstruction shiftctrl) := by
  have pulled : pull false false = .ok (.pull false false) := by decide
  rw [drainInstruction, extract_eq_ok, ok_bind, encode_eq_ok, pulled]
  exact (apply_ite Except.ok (Layout.autopull.isSet shiftctrl = true) _ _).symm

def window (s : Stroke) : Checked Word := do
  return (← place Layout.setCount (BitVec.ofNat 32 s.count)) |||
    (← place Layout.setBase (BitVec.ofNat 32 s.base))

theorem window_eq_ok (s : Stroke) : window s = .ok s.window := by
  rw [window, place_eq_ok, ok_bind, place_eq_ok]
  rfl

def strokePair (pinctrl instr : Word) (s : Stroke) : Checked (List (Word × Word)) := do
  let i ← encode 0xe000 s.destination.code (s.data.toNat % 32)
  return [(pinctrl, ← window s), (instr, i.setWidth 32)]

theorem strokePair_eq_ok (pinctrl instr : Word) (s : Stroke) :
    strokePair pinctrl instr s =
      .ok [(pinctrl, s.window), (instr, s.instruction.setWidth 32)] := by
  rw [strokePair, encode_eq_ok, ok_bind, window_eq_ok]
  rfl

/-- The writes of all strokes of a state machine, whose two addresses are found first. -/
def strokeWrites (base : Word) (sm : Nat) (strokes : List Stroke) :
    Checked (Word × List (Word × Word)) := do
  let pinctrl ← address base (← machineIndex sm .pinctrl)
  let instr ← address base (← machineIndex sm .instr)
  return (pinctrl, (← strokes.mapM (strokePair pinctrl instr)).flatten)

theorem strokeWrites_eq_ok {h : Handle} (fits : Layout.Fits h.base) (sm : StateMachine)
    (strokes : List Stroke) : strokeWrites h.base sm.val strokes =
      .ok (h.address (.machine sm .pinctrl), Control.strokeWrites h sm strokes) := by
  rw [strokeWrites, machineIndex_eq_ok, ok_bind, address_eq_ok fits, ok_bind, machineIndex_eq_ok,
    ok_bind, address_eq_ok fits, ok_bind, mapM_eq_ok fun s _ => strokePair_eq_ok _ _ s]
  rfl

def allPins (values : Word) (base : Nat) : Checked (List Stroke) :=
  let count := min Layout.setWindow (32 - base)
  if base < 32 then do
    let _ ← sub 32 base
    let data ← shr values base
    let _ ← add 32 base count
    return ⟨base, count, .pins, data⟩ :: (← allPins values (base + count))
  else return []
termination_by 32 - base
decreasing_by simp only [Layout.setWindow]; omega

theorem allPins_eq_ok_from (values : Word) (m k : Nat) (rest : k + m = 7) :
    allPins values (min (5 * k) 32) = .ok ((List.range' k m).map fun k =>
      ⟨5 * k, min Layout.setWindow (32 - 5 * k), .pins, values >>> (5 * k)⟩) := by
  induction m generalizing k with
  | zero =>
    obtain rfl : k = 7 := rest
    rw [allPins]
    rfl
  | succ m ih =>
    have base : min (5 * k) 32 = 5 * k := by omega
    have next : 5 * k + min Layout.setWindow (32 - 5 * k) = min (5 * (k + 1)) 32 := by
      rw [Layout.setWindow]
      omega
    rw [base, allPins, if_pos (by omega), sub_eq_ok (by omega), ok_bind, shr_eq_ok (by omega),
      ok_bind, add_eq_ok (by omega), ok_bind, next, ih (k + 1) (by omega)]
    rfl

theorem allPins_eq_ok (values : Word) : allPins values 0 = .ok (Stroke.allPins values) := by
  rw [Stroke.allPins, List.range_eq_range']
  exact allPins_eq_ok_from values 7 0 rfl

def masked (destination : SetDestination) (values mask : Word) : Checked (List Stroke) := do
  (← setBits mask).mapM fun pin => do return ⟨pin, 1, destination, (← shr values pin) &&& 1⟩

theorem masked_eq_ok (destination : SetDestination) (values mask : Word) :
    masked destination values mask = .ok (Stroke.masked destination values mask) := by
  rw [masked, setBits_eq_ok]
  exact mapM_eq_ok fun pin listed => by
    rw [shr_eq_ok (lt_of_mem_setBits listed)]
    rfl

def consecutive (base count : Nat) (isOut : Bool) : Checked (List Stroke) :=
  let data := if isOut then 0x1f else 0
  if Layout.setWindow < count then do
    let _ ← sub count Layout.setWindow
    let next ← add 32 base Layout.setWindow
    return ⟨base, Layout.setWindow, .pindirs, data⟩ ::
      (← consecutive (next &&& 0x1f) (count - Layout.setWindow) isOut)
  else return [⟨base, count, .pindirs, data⟩]
termination_by count
decreasing_by simp only [Layout.setWindow] at *; omega

theorem consecutive_eq_ok {base : Nat} (lt : base < 32) (count : Nat) (isOut : Bool) :
    consecutive base count isOut = .ok (Stroke.consecutive base count isOut) := by
  -- The first pin comes back below 32 with every window, so the sum cannot grow with `count`.
  induction base, count using Stroke.windows.induct with
  | case1 base count more ih =>
    have wrapped : (base + Layout.setWindow) &&& 0x1f = (base + Layout.setWindow) % 32 :=
      Nat.and_two_pow_sub_one_eq_mod _ 5
    have small : base + Layout.setWindow < 2 ^ 32 := by
      rw [Layout.setWindow]
      omega
    rw [consecutive, if_pos more, sub_eq_ok (by omega), ok_bind, add_eq_ok small, ok_bind,
      wrapped, ih (Nat.mod_lt _ (by decide)), Stroke.consecutive, Stroke.consecutive,
      Stroke.windows.eq_1 base count, if_pos more]
    rfl
  | case2 base count last =>
    rw [consecutive, if_neg last, Stroke.consecutive, Stroke.windows, if_neg last]
    rfl

end PioBlock.Checked
