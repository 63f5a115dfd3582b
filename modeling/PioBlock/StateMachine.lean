import PioBlock.Word

/-! The state machines of a block are numbered from zero to three, and a set of them is a
vector of four bits. -/

namespace PioBlock

abbrev StateMachine := Fin 4

/-- A set of state machines: bit `i` stands for machine `i`. -/
abbrev MachineSet := BitVec 4

namespace StateMachine

def all : List StateMachine := [0, 1, 2, 3]

def ofNat? (n : Nat) : Option StateMachine := if h : n < 4 then some ⟨n, h⟩ else none

theorem ofNat?_val (sm : StateMachine) : ofNat? sm.val = some sm := by simp [ofNat?]

def single (sm : StateMachine) : MachineSet := 1 <<< sm.val

theorem getLsbD_single (sm other : StateMachine) :
    sm.single.getLsbD other.val = decide (sm = other) := by
  revert sm other
  decide

end StateMachine

namespace MachineSet

def all : MachineSet := BitVec.allOnes 4

def ofNat? (mask : Nat) : Option MachineSet := if mask < 16 then some (BitVec.ofNat 4 mask) else none

def has (s : MachineSet) (sm : StateMachine) : Bool := s.getLsbD sm.val

theorem has_single (sm other : StateMachine) :
    MachineSet.has sm.single other = decide (sm = other) :=
  sm.getLsbD_single other

theorem has_ofNat (mask : Nat) (sm : StateMachine) :
    MachineSet.has (BitVec.ofNat 4 mask) sm = mask.testBit sm.val := by
  rw [has, BitVec.getLsbD_ofNat, decide_eq_true sm.isLt, Bool.true_and]

def word (s : MachineSet) : Word := s.setWidth 32

/-- The lowest state machine that is not a member. -/
def lowestFree? (s : MachineSet) : Option StateMachine := StateMachine.all.find? (!has s ·)

theorem lowestFree?_eq_some {s : MachineSet} {sm : StateMachine} :
    lowestFree? s = some sm ↔ has s sm = false ∧ ∀ lower < sm, has s lower = true := by
  revert s sm
  decide

theorem lowestFree?_eq_none {s : MachineSet} : lowestFree? s = none ↔ s = all := by
  revert s
  decide

end MachineSet

end PioBlock
