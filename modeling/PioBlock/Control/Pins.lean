import PioBlock.Control.Start

/-! Pins are driven by executing SET on a window of them. A helper is a list of such strokes;
for each one the window is written to `PINCTRL` and the instruction executed, and afterwards
`PINCTRL` gets its old word back, even when a stroke fails. -/

namespace PioBlock

/-- SET with `data` on the `count` pins from `base` on. -/
structure Stroke where
  base : Nat
  count : Nat
  destination : SetDestination
  data : Word
deriving DecidableEq, Repr

namespace Stroke

def window (s : Stroke) : Word :=
  Layout.setCount.place (BitVec.ofNat 32 s.count) ||| Layout.setBase.place (BitVec.ofNat 32 s.base)

def instruction (s : Stroke) : Instruction := .set s.destination (s.data.toNat % 32)

def allPins (values : Word) : List Stroke :=
  (List.range 7).map fun k =>
    ⟨5 * k, min Layout.setWindow (32 - 5 * k), .pins, values >>> (5 * k)⟩

def masked (destination : SetDestination) (values mask : Word) : List Stroke :=
  (setBits mask).map fun pin => ⟨pin, 1, destination, (values >>> pin) &&& 1⟩

/-- The windows that cover `count` pins from `base` on, around the end of the pins: full ones
while more than a window remains, and one last for the rest, which may be none. -/
def windows (base count : Nat) : List (Nat × Nat) :=
  if Layout.setWindow < count then
    (base, Layout.setWindow) :: windows ((base + Layout.setWindow) % 32) (count - Layout.setWindow)
  else [(base, count)]
termination_by count
decreasing_by simp only [Layout.setWindow] at *; omega

def consecutive (base count : Nat) (isOut : Bool) : List Stroke :=
  (windows base count).map fun (base, count) =>
    ⟨base, count, .pindirs, if isOut then 0x1f else 0⟩

end Stroke

namespace Control

def strokeWrites (h : Handle) (sm : StateMachine) (strokes : List Stroke) : List (Word × Word) :=
  strokes.flatMap fun s =>
    [(h.address (.machine sm .pinctrl), s.window),
      (h.address (.machine sm .instr), s.instruction.setWidth 32)]

/-- Makes writes between reading a register and writing the word back to it. The first error is
the one that counts. -/
def restoring (address : Word) (writes : List (Word × Word)) : Transaction Unit := do
  let saved ← .read address
  let outcome ← ExceptT.lift (ExceptT.run (Transaction.writeAll writes))
  let restored ← ExceptT.lift (ExceptT.run (Transaction.write address saved))
  match outcome with
  | .ok () => ExceptT.mk (pure restored)
  | .error e => throw e

/-- Carries out strokes on a state machine. -/
def draw (sm : StateMachine) (strokes : List Stroke) : Control Unit := do
  let h ← get
  transact (restoring (h.address (.machine sm .pinctrl)) (strokeWrites h sm strokes))

end Control

end PioBlock
