import PioBlock.Config

/-! One call of a configuration setter as a value, so that runs of calls can be written down. -/

namespace PioBlock

inductive Setting where
  | clkdivIntFrac (int : BitVec 16) (frac : BitVec 8)
  | clkdiv (divisor : Binary32)
  | wrap (target top : Nat)
  | jmpPin (pin : Nat)
  | movStatus (source : StatusSource) (level : Nat)
  | sideset (bitCount : Nat) (isOptional pindirs : Bool)
  | outSpecial (sticky hasEnablePin : Bool) (enableIndex : Nat)
  | inShift (shiftRight autopush : Bool) (threshold : Nat)
  | outShift (shiftRight autopull : Bool) (threshold : Nat)
  | queueJoin (join : QueueJoin)
  | outPins (base count : Nat)
  | setPins (base count : Nat)
  | inPins (base : Nat)
  | sidesetPins (base : Nat)
deriving DecidableEq, Repr

namespace Setting

def setter : Setting → Config.Setter Unit
  | .clkdivIntFrac int frac => Config.setClkdivIntFrac int frac
  | .clkdiv divisor => Config.setClkdiv divisor
  | .wrap target top => Config.setWrap target top
  | .jmpPin pin => Config.setJmpPin pin
  | .movStatus source level => Config.setMovStatus source level
  | .sideset bitCount isOptional pindirs => Config.setSideset bitCount isOptional pindirs
  | .outSpecial sticky hasEnablePin enableIndex =>
    Config.setOutSpecial sticky hasEnablePin enableIndex
  | .inShift shiftRight autopush threshold => Config.setInShift shiftRight autopush threshold
  | .outShift shiftRight autopull threshold => Config.setOutShift shiftRight autopull threshold
  | .queueJoin join => Config.setQueueJoin join
  | .outPins base count => Config.setOutPins base count
  | .setPins base count => Config.setSetPins base count
  | .inPins base => Config.setInPins base
  | .sidesetPins base => Config.setSidesetPins base

def outcome (s : Setting) (c : Config) : Except ConfigError Unit := s.setter.outcome c

/-- The configuration that the call leaves, accepted or refused. -/
def result (s : Setting) (c : Config) : Config := s.setter.result c

def apply (s : Setting) (c : Config) : Except ConfigError Config := s.setter.apply c

end Setting

end PioBlock
