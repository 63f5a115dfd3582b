import PioBlock.Control.Start

/-! Changing a part of a configuration in place: one masked write replaces the fields of that
part and leaves all others of the register alone. -/

namespace PioBlock.Control

def adjust (sm : StateMachine) (r : MachineRegister) (bits mask : Word) : Control Unit :=
  changeRegister (.machine sm r) ⟨bits, mask, false⟩

/-- What a setting makes of the reset configuration. -/
def scratch (s : Setting) : Control Config := ofExcept .config (s.apply .reset)

def adjustWrap (sm : StateMachine) (target wrap : Nat) : Control Unit := do
  let c ← scratch (.wrap target wrap)
  adjust sm .execctrl c.execctrl (Layout.wrapTop.mask ||| Layout.wrapBottom.mask)

def adjustOutPins (sm : StateMachine) (base count : Nat) : Control Unit := do
  let c ← scratch (.outPins base count)
  adjust sm .pinctrl c.pinctrl (Layout.outBase.mask ||| Layout.outCount.mask)

def adjustSetPins (sm : StateMachine) (base count : Nat) : Control Unit := do
  let c ← scratch (.setPins base count)
  adjust sm .pinctrl c.pinctrl (Layout.setBase.mask ||| Layout.setCount.mask)

def adjustInPins (sm : StateMachine) (base : Fin 32) : Control Unit :=
  adjust sm .pinctrl (Layout.inBase.place (BitVec.ofNat 32 base.val)) Layout.inBase.mask

def adjustSidesetPins (sm : StateMachine) (base : Fin 32) : Control Unit :=
  adjust sm .pinctrl (Layout.sidesetBase.place (BitVec.ofNat 32 base.val)) Layout.sidesetBase.mask

def adjustClkdiv (sm : StateMachine) (int : BitVec 16) (frac : BitVec 8) : Control Unit := do
  let c ← scratch (.clkdivIntFrac int frac)
  adjust sm .clkdiv c.clkdiv (Layout.clkdivInt.mask ||| Layout.clkdivFrac.mask)

end PioBlock.Control
