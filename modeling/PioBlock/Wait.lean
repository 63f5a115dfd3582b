import PioBlock.Clock

/-! Waiting for a register: it is read until the bits under a mask are as expected, or the
clock has left the window of cycles given, or the time given has run out. Between two reads the
clock moves once. Since the window closes at a cycle that the clock reaches step by step, a wait
on a running clock comes to an end. -/

namespace PioBlock

/-- What is waited for, and for how long: a `cycles` of 0 reads once, a `millis` of 0 sets no
limit in time. -/
structure Wait where
  address : Word
  expected : Word
  mask : Word
  cycles : Cycle
  millis : Nat
deriving DecidableEq, Repr

/-- How a wait ended. There is no answer when the wait never ends: the clock stands still and no
limit in time was given. -/
structure WaitRun (β : Type) where
  answer : Option (Except RegisterError Word)
  dispatch : Dispatch β
  clock : Clock
  trace : List Access

theorem Clock.await_closer {c c' : Clock} {stores : List (Nat × Nat × Word)} {stop : Cycle}
    (moved : c.await = some (c', stores)) (ne : c.cycle ≠ stop) :
    Prod.Lex (· < ·) (· < ·) (c'.upcoming.length, (stop - c'.cycle).toNat)
      (c.upcoming.length, (stop - c.cycle).toNat) := by
  unfold Clock.await at moved
  split at moved
  · next tick rest h =>
    cases moved
    apply Prod.Lex.left
    simp [h]
  · next h =>
    split at moved <;> cases moved
    simp only [Clock.advance, h]
    apply Prod.Lex.right
    bv_omega

namespace Wait

variable {β : Type} [RegisterBlock β]

/-- Whether a poll that saw `value` at cycle `now` ends the wait. -/
def isOver (w : Wait) (start now : Cycle) (value : Word) : Bool :=
  value == w.expected || w.cycles == 0 || timedOut start (start + w.cycles) now

theorem ne_stop_of_not_isOver {w : Wait} {start now : Cycle} {value : Word}
    (h : w.isOver start now value = false) : now ≠ start + w.cycles := by
  simp only [isOver, Bool.or_eq_false_iff, beq_eq_false_iff_ne] at h
  rintro rfl
  have ne : start ≠ start + w.cycles := by
    intro e
    exact h.1.2 (by simpa using e.symm)
  simp [timedOut_stop ne] at h

/-- Polls until the wait is over; `start` is the cycle that it began at. -/
def pollFrom (w : Wait) (start : Cycle) (d : Dispatch β) (c : Clock) : WaitRun β :=
  let polled := d.read w.address
  let access := Access.read w.address polled.1
  match polled.1 with
  | .error e => ⟨some (.error e), polled.2, c, [access]⟩
  | .ok word =>
    if _over : w.isOver start c.cycle (word &&& w.mask) then
      ⟨some (.ok (word &&& w.mask)), polled.2, c, [access]⟩
    else
      match _moved : c.await with
      | some (c', stores) =>
        let rest := w.pollFrom start (polled.2.storeAll stores) c'
        { rest with trace := access :: rest.trace }
      | none =>
        if w.millis = 0 then ⟨none, polled.2, c, [access]⟩
        else
          let last := polled.2.read w.address
          ⟨some (last.1.map (· &&& w.mask)), last.2, c, [access, .read w.address last.1]⟩
termination_by (c.upcoming.length, (start + w.cycles - c.cycle).toNat)
decreasing_by exact c.await_closer _moved (ne_stop_of_not_isOver (by simpa using _over))

def run (w : Wait) (d : Dispatch β) (c : Clock) : WaitRun β := w.pollFrom c.cycle d c

end Wait

end PioBlock
