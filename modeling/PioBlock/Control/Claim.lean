import PioBlock.Handle

/-! Claiming state machines, so that users of one block do not get in each other's way. A set is
claimed as a whole or not at all. -/

namespace PioBlock.Control

/-- Claims all members of a set, when none of them is claimed yet. -/
def claim (machines : MachineSet) : Control Unit := do
  let h ← get
  match setBits (h.claimed &&& machines) with
  | [] => set { h with claimed := h.claimed ||| machines }
  | claimed => refuse (.claimConflict claimed)

/-- Gives a state machine back, claimed or not. -/
def unclaim (sm : StateMachine) : Control Unit :=
  modify fun h => { h with claimed := h.claimed &&& ~~~sm.single }

/-- Claims the lowest state machine that is not claimed. -/
def claimUnused (required : Bool) : Control (Option StateMachine) := do
  let h ← get
  match MachineSet.lowestFree? h.claimed with
  | some sm =>
    set { h with claimed := h.claimed ||| sm.single }
    return some sm
  | none => if required then refuse .noUnusedStateMachine else return none

def isClaimed (sm : StateMachine) : Control Bool := do
  return MachineSet.has (← get).claimed sm

end PioBlock.Control
