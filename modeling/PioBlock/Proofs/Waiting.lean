import PioBlock.Wait
import Mathlib.Data.Nat.Find
import Mathlib.Logic.Function.Iterate

/-! Waiting on a running clock. The polls of a wait are told without the wait: each one finds what
the read before it and one move of the clock have left. A wait goes on to the first poll that ends
it or fails, and tells what that poll saw. There is such a poll, for once the moves of others are
used up the clock goes on by one and leaves the window at its last cycle, if it has not jumped over
it before. -/

namespace PioBlock

theorem timedOut_add_eq {start cycles : Cycle} (open_ : cycles ≠ 0) (now : Cycle) :
    timedOut start (start + cycles) now = decide (cycles ≤ now - start) := by
  have pos : 0 < cycles.toNat := Nat.pos_of_ne_zero fun zero => open_ (BitVec.eq_of_toNat_eq zero)
  have := start.isLt
  have := now.isLt
  have := cycles.isLt
  have stop : (start + cycles).toNat = (start.toNat + cycles.toNat) % 2 ^ 64 :=
    BitVec.toNat_add start cycles
  have distance : (now - start).toNat = (2 ^ 64 - start.toNat + now.toNat) % 2 ^ 64 :=
    BitVec.toNat_sub now start
  unfold timedOut
  split
  · next lt =>
    rw [BitVec.lt_def, stop] at lt
    rw [decide_eq_decide, BitVec.lt_def, BitVec.le_def, BitVec.le_def, stop, distance]
    omega
  · next nlt =>
    rw [BitVec.lt_def, stop] at nlt
    rw [decide_eq_decide, BitVec.lt_def, BitVec.le_def, BitVec.le_def, stop, distance]
    omega

theorem timedOut_self (start now : Cycle) : timedOut start start now = false := by
  have here : ¬ start < start := BitVec.lt_irrefl start
  rw [timedOut, if_neg here, decide_eq_false_iff_not, BitVec.lt_def, BitVec.le_def]
  omega

/-- A clock has left a window when it is as far from the start as the window is long, whichever of
the end and the clock have begun again since. A window without a cycle is never left. -/
theorem timedOut_add_add_iff (start length distance : Cycle) :
    timedOut start (start + length) (start + distance) = true ↔
      0 < length ∧ length ≤ distance := by
  by_cases no_cycle : length = 0
  · have stop : start + length = start := by
      rw [no_cycle]
      exact BitVec.add_zero start
    rw [stop, timedOut_self, no_cycle]
    simp
  · have pos : 0 < length :=
      Nat.pos_of_ne_zero fun zero => no_cycle (BitVec.eq_of_toNat_eq zero)
    have passed : start + distance - start = distance := by
      rw [BitVec.add_comm, BitVec.add_sub_cancel]
    rw [timedOut_add_eq no_cycle, passed, decide_eq_true_eq]
    exact (and_iff_right pos).symm

namespace Clock

def moved (c : Clock) : Clock := (c.await.map Prod.fst).getD c

theorem iterate_moved_of_upcoming_nil (k : Nat) (cycle : Cycle) :
    moved^[k] ⟨cycle, [], true⟩ = ⟨cycle + BitVec.ofNat 64 k, [], true⟩ := by
  induction k generalizing cycle with
  | zero => rw [Function.iterate_zero, BitVec.add_zero, id]
  | succ k ih =>
    have step : moved ⟨cycle, [], true⟩ = ⟨cycle + 1, [], true⟩ := rfl
    rw [Function.iterate_succ_apply, step, ih, BitVec.ofNat_add, BitVec.add_assoc, BitVec.add_comm 1]
    rfl

theorem iterate_moved_length (cycle : Cycle) (events : List Tick) :
    ∃ later, moved^[events.length] ⟨cycle, events, true⟩ = ⟨later, [], true⟩ := by
  induction events generalizing cycle with
  | nil => exact ⟨cycle, rfl⟩
  | cons tick rest ih => exact ih (cycle + tick.advance)

theorem exists_iterate_moved_ge (start cycles cycle : Cycle) (events : List Tick) :
    ∃ k ≤ events.length + cycles.toNat,
      cycles ≤ (moved^[k] ⟨cycle, events, true⟩).cycle - start := by
  obtain ⟨later, used⟩ := iterate_moved_length cycle events
  by_cases out : cycles ≤ later - start
  · exact ⟨events.length, Nat.le_add_right .., by rwa [used]⟩
  · -- From `later` on the clock takes every cycle, and so the last one of the window.
    refine ⟨cycles.toNat - (later - start).toNat + events.length, by omega, ?_⟩
    rw [Function.iterate_add_apply, used, iterate_moved_of_upcoming_nil]
    bv_omega

end Clock

/-- What a poll finds. -/
structure Poll (β : Type) where
  dispatch : Dispatch β
  clock : Clock

namespace Poll

variable {β : Type} [RegisterBlock β]

def answer (p : Poll β) (address : Word) : Except RegisterError Word :=
  (p.dispatch.read address).1

def next (address : Word) (p : Poll β) : Poll β :=
  ⟨(p.dispatch.read address).2.storeAll ((p.clock.await.map Prod.snd).getD []), p.clock.moved⟩

theorem running_next (address : Word) (p : Poll β) :
    (p.next address).clock.running = p.clock.running := by
  rw [next, Clock.moved, Clock.await]
  cases p.clock.upcoming with
  | nil => cases running : p.clock.running <;> simp [Clock.advance, running]
  | cons tick rest => rfl

theorem clock_iterate_next (address : Word) (k : Nat) (p : Poll β) :
    ((next address)^[k] p).clock = Clock.moved^[k] p.clock := by
  induction k generalizing p with
  | zero => rfl
  | succ k ih => rw [Function.iterate_succ_apply, Function.iterate_succ_apply, ih, next]

end Poll

namespace Wait

variable {β : Type} [RegisterBlock β]

/-- A poll of the wait ends it: what is waited for is there, or only one poll was asked for, or the
clock is as far from its start as was allowed. -/
def Ends (w : Wait) (start now : Cycle) (value : Word) : Prop :=
  value &&& w.mask = w.expected ∨ w.cycles = 0 ∨ w.cycles ≤ now - start

theorem isOver_eq_true_iff {w : Wait} {start now : Cycle} {value : Word} :
    w.isOver start now (value &&& w.mask) = true ↔ w.Ends start now value := by
  rw [isOver, Ends, Bool.or_eq_true, Bool.or_eq_true, beq_iff_eq, beq_iff_eq, or_assoc]
  by_cases once : w.cycles = 0
  · simp [once]
  · rw [timedOut_add_eq once, decide_eq_true_eq]

/-- The wait goes past a poll: it finds a word, and the wait is not over. -/
def Passes (w : Wait) (start : Cycle) (p : Poll β) : Prop :=
  ∃ value, p.answer w.address = .ok value ∧ ¬ w.Ends start p.clock.cycle value

def told (w : Wait) (p : Poll β) : Except RegisterError Word :=
  (p.answer w.address).map (· &&& w.mask)

theorem pollFrom_of_not_passes {w : Wait} {start : Cycle} {p : Poll β}
    (stops : ¬ w.Passes start p) :
    w.pollFrom start p.dispatch p.clock =
      ⟨some (w.told p), (p.dispatch.read w.address).2, p.clock,
        [.read w.address (p.answer w.address)]⟩ := by
  rw [pollFrom, told, Poll.answer]
  unfold Passes Poll.answer at stops
  generalize p.dispatch.read w.address = polled at stops ⊢
  obtain ⟨e | value, d⟩ := polled
  · rfl
  · have closed : w.isOver start p.clock.cycle (value &&& w.mask) = true :=
      isOver_eq_true_iff.mpr (not_not.mp fun stays => stops ⟨value, rfl, stays⟩)
    simp only [closed, dite_true]
    rfl

theorem pollFrom_of_passes {w : Wait} {start : Cycle} {p : Poll β} (passes : w.Passes start p)
    (running : p.clock.running = true) :
    let rest := w.pollFrom start (p.next w.address).dispatch (p.next w.address).clock
    w.pollFrom start p.dispatch p.clock =
      { rest with trace := .read w.address (p.answer w.address) :: rest.trace } := by
  obtain ⟨value, found, stays⟩ := passes
  have open_ : ¬ w.isOver start p.clock.cycle (value &&& w.mask) = true := fun closed =>
    stays (isOver_eq_true_iff.mp closed)
  obtain ⟨⟨c, stores⟩, moved⟩ : ∃ step, p.clock.await = some step :=
    Option.ne_none_iff_exists'.mp fun stuck => by
      rw [(Clock.await_eq_none.mp stuck).2] at running
      cases running
  have after : p.next w.address = ⟨(p.dispatch.read w.address).2.storeAll stores, c⟩ := by
    rw [Poll.next, Clock.moved, moved]
    rfl
  intro rest
  conv_lhs => rw [pollFrom]
  unfold Poll.answer at found ⊢
  subst rest
  rw [after]
  generalize p.dispatch.read w.address = polled at found ⊢
  obtain ⟨answer, d⟩ := polled
  cases found
  dsimp only
  rw [dif_neg open_]
  split
  · next moved' =>
    cases moved.symm.trans moved'
    rfl
  · next stuck => cases moved.symm.trans stuck

/-- A wait runs to the first poll that does not go on. -/
theorem pollFrom_of_least {w : Wait} {start : Cycle} {last : Nat} {p : Poll β}
    (running : p.clock.running = true)
    (passes : ∀ k < last, w.Passes start ((Poll.next w.address)^[k] p))
    (stops : ¬ w.Passes start ((Poll.next w.address)^[last] p)) :
    w.pollFrom start p.dispatch p.clock =
      let q := (Poll.next w.address)^[last] p
      ⟨some (w.told q), (q.dispatch.read w.address).2, q.clock,
        (List.range (last + 1)).map fun k =>
          .read w.address (((Poll.next w.address)^[k] p).answer w.address)⟩ := by
  induction last generalizing p with
  | zero => exact pollFrom_of_not_passes stops
  | succ last ih =>
    have first : w.Passes start p := passes 0 (Nat.succ_pos last)
    have later := ih (p := p.next w.address) (by rwa [Poll.running_next])
      (fun k lt => passes (k + 1) (Nat.succ_lt_succ lt)) stops
    rw [pollFrom_of_passes first running, later]
    simp only [List.range_succ_eq_map, List.map_cons, List.map_map]
    rfl

/-- The clock ends a wait whatever its polls see, so there is a first poll that does not go on. -/
theorem exists_first_stop (w : Wait) (start cycle : Cycle) (events : List Tick) (d : Dispatch β) :
    ∃ last ≤ events.length + w.cycles.toNat,
      (∀ k < last, w.Passes start ((Poll.next w.address)^[k] ⟨d, ⟨cycle, events, true⟩⟩)) ∧
      ¬ w.Passes start ((Poll.next w.address)^[last] ⟨d, ⟨cycle, events, true⟩⟩) := by
  classical
  obtain ⟨k, le, out⟩ := Clock.exists_iterate_moved_ge start w.cycles cycle events
  rw [← Poll.clock_iterate_next w.address k ⟨d, ⟨cycle, events, true⟩⟩] at out
  have stops : ¬ w.Passes start ((Poll.next w.address)^[k] ⟨d, ⟨cycle, events, true⟩⟩) :=
    fun ⟨_, _, stays⟩ => stays (Or.inr (Or.inr out))
  have stop : ∃ k, ¬ w.Passes start ((Poll.next w.address)^[k] ⟨d, ⟨cycle, events, true⟩⟩) :=
    ⟨k, stops⟩
  exact ⟨Nat.find stop, Nat.le_trans (Nat.find_min' stop stops) le,
    fun j lt => not_not.mp (Nat.find_min stop lt), Nat.find_spec stop⟩

/-- A wait on a running clock reads its register up to the first poll that fails or ends it, and
the clock moves once between any two reads. It tells the word of the last poll under the mask, or
its failure. That poll comes after no more moves than are to come and cycles are allowed, whether
the word expected can be seen or not. -/
theorem run_on_running_clock (address expected mask : Word) (cycles start : Cycle) (events : List Tick)
    (d : Dispatch β) :
    let w : Wait := ⟨address, expected, mask, cycles, 0⟩
    let ended := w.run d ⟨start, events, true⟩
    let poll := fun k => (Poll.next address)^[k] ⟨d, ⟨start, events, true⟩⟩
    ∃ last ≤ events.length + cycles.toNat,
      (∀ k < last, ∃ value, (poll k).answer address = .ok value ∧ value &&& mask ≠ expected ∧
        cycles ≠ 0 ∧ (poll k).clock.cycle - start < cycles) ∧
      ((∃ value, (poll last).answer address = .ok value ∧
          (value &&& mask = expected ∨ cycles = 0 ∨ cycles ≤ (poll last).clock.cycle - start) ∧
          ended.answer = some (.ok (value &&& mask))) ∨
        ∃ e, (poll last).answer address = .error e ∧ ended.answer = some (.error e)) ∧
      ended.trace = (List.range (last + 1)).map (fun k => .read address ((poll k).answer address)) ∧
      ended.dispatch = ((poll last).dispatch.read address).2 ∧
      ended.clock = Clock.moved^[last] ⟨start, events, true⟩ := by
  intro w ended poll
  obtain ⟨last, le, passes, stops⟩ := w.exists_first_stop start start events d
  have run : ended = _ := pollFrom_of_least (p := ⟨d, ⟨start, events, true⟩⟩) rfl passes stops
  rw [run]
  refine ⟨last, le, fun k lt => ?_, ?_, rfl, rfl, Poll.clock_iterate_next address last _⟩
  · obtain ⟨value, seen, stays⟩ := passes k lt
    rw [Ends, not_or, not_or, BitVec.not_le] at stays
    exact ⟨value, seen, stays⟩
  · cases seen : (poll last).answer address with
    | error e =>
      refine Or.inr ⟨e, rfl, ?_⟩
      change some (((poll last).answer address).map _) = _
      rw [seen]
      rfl
    | ok value =>
      refine Or.inl ⟨value, rfl, not_not.mp fun stays => stops ⟨value, seen, stays⟩, ?_⟩
      change some (((poll last).answer address).map _) = _
      rw [seen]
      rfl

end Wait

end PioBlock
