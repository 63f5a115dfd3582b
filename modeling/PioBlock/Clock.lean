import PioBlock.Dispatch

/-! The master clock counts cycles modulo `2 ^ 64`. Others move it: `upcoming` lists the moves
still to come, one for each wait, with the words that the hardware stores meanwhile. After the
last of them a running clock moves on by one per wait and a stopped one stands still. -/

namespace PioBlock

/-- A number of cycles, modulo `2 ^ 64`. -/
abbrev Cycle := BitVec 64

/-- Whether `now` lies outside the window from `start` up to, not including, `stop`, where
either end may have passed the largest number and begun again. -/
def timedOut (start stop now : Cycle) : Bool :=
  if start < stop then decide (now < start ∨ stop ≤ now) else decide (now < start ∧ stop ≤ now)

theorem timedOut_stop {start stop : Cycle} (h : start ≠ stop) : timedOut start stop stop = true := by
  unfold timedOut
  split
  · next lt => simp
  · next nlt =>
    have : start.toNat ≠ stop.toNat := fun e => h (BitVec.eq_of_toNat_eq e)
    simp only [BitVec.lt_def, BitVec.le_def, decide_eq_true_eq] at *
    omega

/-- One move of the clock and the words stored with it, each at a block and a register. -/
structure Tick where
  advance : Cycle
  stores : List (Nat × Nat × Word)
deriving DecidableEq, Repr

structure Clock where
  cycle : Cycle
  upcoming : List Tick
  running : Bool
deriving DecidableEq, Repr

namespace Clock

def stopped (cycle : Cycle) : Clock := ⟨cycle, [], false⟩

def advance (c : Clock) (cycles : Cycle) : Clock := { c with cycle := c.cycle + cycles }

/-- The clock after one wait for it to move, and the words stored meanwhile. A clock that will
not move makes the wait as long as its caller bears. -/
def await (c : Clock) : Option (Clock × List (Nat × Nat × Word)) :=
  match c.upcoming with
  | tick :: rest => some ({ c with cycle := c.cycle + tick.advance, upcoming := rest }, tick.stores)
  | [] => if c.running then some (c.advance 1, []) else none

theorem await_eq_none {c : Clock} : c.await = none ↔ c.upcoming = [] ∧ c.running = false := by
  unfold await
  cases c.upcoming with
  | nil => cases c.running <;> simp
  | cons tick rest => simp

end Clock

end PioBlock
