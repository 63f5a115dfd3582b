import PioBlock.Binary32
import PioBlock.Occupancy

/-! The configuration of a state machine is held as the four register words that it is written
to. A setter checks its arguments and then replaces its own fields; a getter reads them back. -/

namespace PioBlock

/-- What a setter found out of range. -/
inductive ConfigPart where
  | clkdiv
  | clkdivFrac
  | wrapTarget
  | wrap
  | jmpPin
  | statusN
  | sidesetCount
  | optionalSidesetCount
  | outEnSel
  | pushThreshold
  | pullThreshold
  | outBase
  | outCount
  | setBase
  | setCount
  | inBase
  | sidesetBase
  | offset
deriving DecidableEq, Repr

namespace ConfigPart

def name : ConfigPart → String
  | .clkdiv => "clkdiv"
  | .clkdivFrac => "clkdiv_frac"
  | .wrapTarget => "wrap_target"
  | .wrap => "wrap"
  | .jmpPin => "jmp_pin"
  | .statusN => "status_n"
  | .sidesetCount | .optionalSidesetCount => "sideset_count"
  | .outEnSel => "out_en_sel"
  | .pushThreshold => "push_threshold"
  | .pullThreshold => "pull_threshold"
  | .outBase => "out_base"
  | .outCount => "out_count"
  | .setBase => "set_base"
  | .setCount => "set_count"
  | .inBase => "in_base"
  | .sidesetBase => "sideset_base"
  | .offset => "offset"

def range : ConfigPart → String
  | .clkdiv => "1.0..=65536.0"
  | .clkdivFrac => "0 when clkdiv_int is 0"
  | .statusN => "0..=15"
  | .sidesetCount | .setCount => "0..=5"
  | .optionalSidesetCount => "1..=5 when optional"
  | .pushThreshold | .pullThreshold => "1..=32"
  | .outCount => "0..=32"
  | .wrapTarget | .wrap | .jmpPin | .outEnSel | .outBase | .setBase | .inBase | .sidesetBase
  | .offset => "0..=31"

end ConfigPart

structure ConfigError where
  part : ConfigPart
  value : Int
deriving DecidableEq, Repr

def ConfigError.message (e : ConfigError) : String :=
  s!"{e.part.name} value {e.value} out of range {e.part.range}"

inductive QueueJoin where
  | separate
  | tx
  | rx
deriving DecidableEq, Repr

inductive StatusSource where
  | txLessThan
  | rxLessThan
deriving DecidableEq, Repr

structure Config where
  clkdiv : Word
  execctrl : Word
  shiftctrl : Word
  pinctrl : Word
deriving DecidableEq, Repr

namespace Config

def reset : Config :=
  ⟨Layout.clkdivReset, Layout.execctrlReset, Layout.shiftctrlReset, Layout.pinctrlReset⟩

/-- What works on a configuration in place and may refuse. An error takes nothing back. -/
abbrev Setter := ExceptT ConfigError (StateM Config)

namespace Setter

/-- How the call ends, and the configuration it leaves, whichever way it ends. -/
def on {α : Type} (x : Setter α) (c : Config) : Except ConfigError α × Config := x.run.run c

def outcome {α : Type} (x : Setter α) (c : Config) : Except ConfigError α := (x.on c).1

def result {α : Type} (x : Setter α) (c : Config) : Config := (x.on c).2

/-- The configuration after an accepted call. -/
def apply (x : Setter Unit) (c : Config) : Except ConfigError Config :=
  (x.outcome c).map fun _ => x.result c

variable {α β : Type} {c c' : Config} {e : ConfigError}

@[simp]
theorem on_modify (f : Config → Config) (c : Config) :
    (modify f : Setter Unit).on c = (.ok (), f c) := rfl

@[simp]
theorem on_throw (e : ConfigError) (c : Config) : (throw e : Setter α).on c = (.error e, c) := rfl

theorem on_bind {x : Setter α} {a : α} (h : x.on c = (.ok a, c')) (next : α → Setter β) :
    (x >>= next).on c = (next a).on c' := by
  change (ExceptT.bindCont next (x.on c).1) (x.on c).2 = _
  rw [h]
  rfl

theorem apply_eq_ok_iff {x : Setter Unit} : x.apply c = .ok c' ↔ x.on c = (.ok (), c') := by
  rw [apply, outcome, result]
  cases x.on c with
  | mk ended left => cases ended <;> simp [Except.map]

theorem result_of_apply {x : Setter Unit} (h : x.apply c = .ok c') : x.result c = c' := by
  rw [result, apply_eq_ok_iff.mp h]

end Setter

def flag (b : Bool) : Word := (BitVec.ofBool b).setWidth 32

def number (n : Nat) : Word := BitVec.ofNat 32 n

def check (part : ConfigPart) (value max : Nat) : Except ConfigError Unit :=
  if value ≤ max then .ok () else .error ⟨part, value⟩

theorem check_eq_ok_iff {part : ConfigPart} {value max : Nat} :
    check part value max = .ok () ↔ value ≤ max := by
  by_cases h : value ≤ max <;> simp [check, h]

def checkThreshold (part : ConfigPart) (value : Nat) : Except ConfigError Unit :=
  if 1 ≤ value ∧ value ≤ 32 then .ok () else .error ⟨part, value⟩

/-- The divider `int + frac / 256`, where an `int` of 0 means 65536 and leaves no fraction. -/
def setClkdivIntFrac (int : BitVec 16) (frac : BitVec 8) : Setter Unit := do
  if int = 0 ∧ frac ≠ 0 then throw ⟨.clkdivFrac, frac.toNat⟩
  modify fun c => { c with
    clkdiv := Layout.clkdivFrac.insert (Layout.clkdivInt.insert c.clkdiv (int.setWidth 32))
      (frac.setWidth 32) }

/-- The divider next below the given real one, which must lie between 1 and 65536. Its parts are
computed in floating point, where a conversion to an integer drops the fraction. -/
def setClkdiv (divisor : Binary32) : Setter Unit :=
  let x := divisor.toFloat
  if 1 ≤ x ∧ x ≤ 65536 then
    if 65536 ≤ x then setClkdivIntFrac 0 0
    else
      let int := x.toUInt16
      let frac := ((x - int.toFloat32) * 256).toUInt8
      setClkdivIntFrac int.toBitVec frac.toBitVec
  else throw ⟨.clkdiv, divisor.toInt64⟩

def clkdivIntFrac (c : Config) : BitVec 16 × BitVec 8 :=
  ((Layout.clkdivInt.extract c.clkdiv).setWidth 16, (Layout.clkdivFrac.extract c.clkdiv).setWidth 8)

def divider256 (c : Config) : Nat :=
  let (int, frac) := c.clkdivIntFrac
  256 * (if int = 0 then 65536 else int.toNat) + frac.toNat

/-- The divider as a real number, computed in floating point. -/
def clockDivisor (c : Config) : Binary32 :=
  let (int, frac) := c.clkdivIntFrac
  let whole := if int = 0 then 65536 else (UInt16.ofBitVec int).toFloat32
  .ofFloat (whole + (UInt8.ofBitVec frac).toFloat32 / 256)

/-- The slot after which the program wraps, and the one it wraps to. -/
def setWrap (target wrap : Nat) : Setter Unit := do
  check .wrapTarget target 31
  check .wrap wrap 31
  modify fun c => { c with
    execctrl := Layout.wrapTop.insert (Layout.wrapBottom.insert c.execctrl (number target))
      (number wrap) }

def wrap (c : Config) : Nat × Nat :=
  ((Layout.wrapBottom.extract c.execctrl).toNat, (Layout.wrapTop.extract c.execctrl).toNat)

def setJmpPin (pin : Nat) : Setter Unit := do
  check .jmpPin pin 31
  modify fun c => { c with execctrl := Layout.jmpPin.insert c.execctrl (number pin) }

def jmpPin (c : Config) : Nat := (Layout.jmpPin.extract c.execctrl).toNat

def setMovStatus (source : StatusSource) (level : Nat) : Setter Unit := do
  check .statusN level 15
  modify fun c => { c with
    execctrl := Layout.statusN.insert
      (Layout.statusSel.insert c.execctrl (flag (source = .rxLessThan))) (number level) }

def movStatus (c : Config) : StatusSource × Nat :=
  (if Layout.statusSel.isSet c.execctrl then .rxLessThan else .txLessThan,
    (Layout.statusN.extract c.execctrl).toNat)

/-- How many bits the side-set takes, the enabling one included, and what it drives. -/
def setSideset (bitCount : Nat) (isOptional pindirs : Bool) : Setter Unit := do
  check .sidesetCount bitCount 5
  if isOptional ∧ bitCount = 0 then throw ⟨.optionalSidesetCount, bitCount⟩
  modify fun c => { c with
    pinctrl := Layout.sidesetCount.insert c.pinctrl (number bitCount)
    execctrl := Layout.sidePindir.insert (Layout.sideEnable.insert c.execctrl (flag isOptional))
      (flag pindirs) }

def sideset (c : Config) : Nat × Bool × Bool :=
  ((Layout.sidesetCount.extract c.pinctrl).toNat, Layout.sideEnable.isSet c.execctrl,
    Layout.sidePindir.isSet c.execctrl)

def setOutSpecial (sticky hasEnablePin : Bool) (enableIndex : Nat) : Setter Unit := do
  check .outEnSel enableIndex 31
  modify fun c => { c with
    execctrl := Layout.outEnSel.insert
      (Layout.inlineOutEn.insert (Layout.outSticky.insert c.execctrl (flag sticky))
        (flag hasEnablePin)) (number enableIndex) }

def outSpecial (c : Config) : Bool × Bool × Nat :=
  (Layout.outSticky.isSet c.execctrl, Layout.inlineOutEn.isSet c.execctrl,
    (Layout.outEnSel.extract c.execctrl).toNat)

/-- A threshold as it is stored, with 32 as 0, and back. -/
def threshold (stored : Word) : Nat := if stored = 0 then 32 else stored.toNat

def setInShift (shiftRight autopush : Bool) (pushThreshold : Nat) : Setter Unit := do
  checkThreshold .pushThreshold pushThreshold
  modify fun c => { c with
    shiftctrl := Layout.pushThresh.insert
      (Layout.autopush.insert (Layout.inShiftdir.insert c.shiftctrl (flag shiftRight))
        (flag autopush)) (number pushThreshold) }

def inShift (c : Config) : Bool × Bool × Nat :=
  (Layout.inShiftdir.isSet c.shiftctrl, Layout.autopush.isSet c.shiftctrl,
    threshold (Layout.pushThresh.extract c.shiftctrl))

def setOutShift (shiftRight autopull : Bool) (pullThreshold : Nat) : Setter Unit := do
  checkThreshold .pullThreshold pullThreshold
  modify fun c => { c with
    shiftctrl := Layout.pullThresh.insert
      (Layout.autopull.insert (Layout.outShiftdir.insert c.shiftctrl (flag shiftRight))
        (flag autopull)) (number pullThreshold) }

def outShift (c : Config) : Bool × Bool × Nat :=
  (Layout.outShiftdir.isSet c.shiftctrl, Layout.autopull.isSet c.shiftctrl,
    threshold (Layout.pullThresh.extract c.shiftctrl))

/-- Which queue takes the storage of both. -/
def setQueueJoin (join : QueueJoin) : StateM Config Unit :=
  modify fun c => { c with
    shiftctrl := Layout.fjoinRx.insert
      (Layout.fjoinTx.insert c.shiftctrl (flag (join = .tx))) (flag (join = .rx)) }

def queueJoin (c : Config) : QueueJoin :=
  if Layout.fjoinTx.isSet c.shiftctrl then .tx
  else if Layout.fjoinRx.isSet c.shiftctrl then .rx
  else .separate

def setOutPins (base count : Nat) : Setter Unit := do
  check .outBase base 31
  check .outCount count 32
  modify fun c => { c with
    pinctrl := Layout.outCount.insert (Layout.outBase.insert c.pinctrl (number base))
      (number count) }

def outPins (c : Config) : Nat × Nat :=
  ((Layout.outBase.extract c.pinctrl).toNat, (Layout.outCount.extract c.pinctrl).toNat)

def setSetPins (base count : Nat) : Setter Unit := do
  check .setBase base 31
  check .setCount count 5
  modify fun c => { c with
    pinctrl := Layout.setCount.insert (Layout.setBase.insert c.pinctrl (number base))
      (number count) }

def setPins (c : Config) : Nat × Nat :=
  ((Layout.setBase.extract c.pinctrl).toNat, (Layout.setCount.extract c.pinctrl).toNat)

def setInPins (base : Nat) : Setter Unit := do
  check .inBase base 31
  modify fun c => { c with pinctrl := Layout.inBase.insert c.pinctrl (number base) }

def inPins (c : Config) : Nat := (Layout.inBase.extract c.pinctrl).toNat

def setSidesetPins (base : Nat) : Setter Unit := do
  check .sidesetBase base 31
  modify fun c => { c with pinctrl := Layout.sidesetBase.insert c.pinctrl (number base) }

def sidesetPins (c : Config) : Nat := (Layout.sidesetBase.extract c.pinctrl).toNat

/-- The reset configuration with the wrap and side-set of a program loaded at `offset`. The wrap
moves with a relocatable program. -/
def forProgram (p : Program) (offset : Nat) : Except ConfigError Config := do
  check .offset offset 31
  let shift := if p.isRelocatable then offset else 0
  let setup : Setter Unit := do
    setWrap ((p.wrapTarget.val + shift) % 32) ((p.wrap.val + shift) % 32)
    setSideset p.sideSet.totalBits p.sideSet.isOptional p.sideSet.pindirs
  setup.apply reset

end Config

end PioBlock
