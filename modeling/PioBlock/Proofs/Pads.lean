import PioBlock.Control.Pins
import PioBlock.Proofs.Fields
import Mathlib.Tactic.Common

/-! What SET does to the pins. A SET instruction gives bit `j` of its data to pin `SET_BASE + j`,
around the end of the pins, for each `j` below `SET_COUNT`; its destination says whether the levels
or the directions take it. A stroke is such an instruction with its own window, and a list of strokes
that agree on every pin leaves each pin they cover at the level agreed on. -/

namespace PioBlock

namespace Field

theorem place_or_place {f g : Field} (apart : f.Apart g) (v w : Word) :
    f.place v ||| g.place w = g.insert (f.place v) w := by
  apply BitVec.eq_of_getLsbD_eq
  intro j _
  rw [BitVec.getLsbD_or, getLsbD_insert, getLsbD_place, getLsbD_place]
  cases inside : g.covers j with
  | false => simp
  | true =>
    have outside : f.covers j = false := apart_iff_covers.mp apart.symm j inside
    simp [outside]

end Field

def Instruction.setDestination? (i : Instruction) : Option SetDestination :=
  if i &&& 0xe000 = 0xe000 then
    [SetDestination.pins, .x, .y, .pindirs].find? fun d => d.code = ((i >>> 5) &&& 7).toNat
  else none

def Instruction.setData (i : Instruction) : Word := (i &&& operandMask).setWidth 32

theorem Instruction.setDestination?_set (d : SetDestination) (data : Fin 32) :
    (Instruction.set d data).setDestination? = some d := by
  cases d <;> revert data <;> decide

theorem Instruction.setData_set (d : SetDestination) (data : Fin 32) :
    (Instruction.set d data).setData = BitVec.ofNat 32 data := by
  cases d <;> revert data <;> decide

/-- The pins of a block: the level that each is driven to, and which of them are outputs. -/
structure Pads where
  values : Word
  directions : Word
deriving DecidableEq, Repr

namespace Pads

/-- A pin as a field of one bit; after the last pin comes the first. -/
def pin (p : Nat) : Field := ⟨p % 32, 1, Nat.one_pos, Nat.mod_lt p (Nat.succ_pos 31)⟩

/-- Bit `j` of the data goes to pin `base + j`, around the end of the pins, for `j` below `count`. -/
def assign (base count : Nat) (data pins : Word) : Word :=
  (List.range count).foldl (fun pins j => (pin (base + j)).insert pins (data >>> j)) pins

theorem getLsbD_assign {base count p : Nat} (data pins : Word) (in_pins : base < 32)
    (in_word : count ≤ 32) (below : p < 32) :
    (assign base count data pins).getLsbD p =
      if (p + 32 - base) % 32 < count then data.getLsbD ((p + 32 - base) % 32)
      else pins.getLsbD p := by
  induction count with
  | zero => rfl
  | succ count ih =>
    have last : (pin (base + count)).covers p = decide ((p + 32 - base) % 32 = count) := by
      rw [pin, Field.covers, decide_eq_decide]
      dsimp only
      omega
    rw [assign] at ih
    rw [assign, List.range_succ, List.foldl_append, List.foldl_cons, List.foldl_nil,
      Field.getLsbD_insert, last, ih (by omega)]
    by_cases here : (p + 32 - base) % 32 = count
    · have there : p = (base + count) % 32 := by omega
      simp [here, ← there, pin]
    · have split : (p + 32 - base) % 32 < count + 1 ↔ (p + 32 - base) % 32 < count := by omega
      simp [here, split]

theorem assign_congr {base count : Nat} {v w : Word} (pins : Word) (in_pins : base < 32)
    (in_word : count ≤ 32) (same : ∀ j < count, v.getLsbD j = w.getLsbD j) :
    assign base count v pins = assign base count w pins := by
  apply BitVec.eq_of_getLsbD_eq
  intro p below
  rw [getLsbD_assign v pins in_pins in_word below, getLsbD_assign w pins in_pins in_word below]
  by_cases covered : (p + 32 - base) % 32 < count
  · rw [if_pos covered, if_pos covered, same _ covered]
  · rw [if_neg covered, if_neg covered]

/-- The other destinations of SET are no pins. -/
def modify (d : SetDestination) (change : Word → Word) (pads : Pads) : Pads :=
  match d with
  | .pins => { pads with values := change pads.values }
  | .pindirs => { pads with directions := change pads.directions }
  | .x | .y => pads

theorem modify_id (d : SetDestination) (pads : Pads) : pads.modify d id = pads := by
  cases d <;> rfl

theorem modify_modify (d : SetDestination) (f g : Word → Word) (pads : Pads) :
    (pads.modify d f).modify d g = pads.modify d (g ∘ f) := by
  cases d <;> rfl

/-- Executes an instruction as far as it drives pins, on the window that `PINCTRL` selects. -/
def execute (pinctrl : Word) (i : Instruction) (pads : Pads) : Pads :=
  match i.setDestination? with
  | some d =>
    pads.modify d (assign (Layout.setBase.extract pinctrl).toNat
      (Layout.setCount.extract pinctrl).toNat i.setData)
  | none => pads

end Pads

namespace Stroke

variable {s : Stroke} {strokes : List Stroke} {p : Nat}

structure Fits (s : Stroke) : Prop where
  base_lt : s.base < 32
  count_le : s.count ≤ Layout.setWindow

theorem base_window (fits : s.Fits) : (Layout.setBase.extract s.window).toNat = s.base := by
  rw [window, Field.place_or_place (by decide)]
  exact Field.toNat_extract_insert _ fits.base_lt

theorem count_window (fits : s.Fits) : (Layout.setCount.extract s.window).toNat = s.count := by
  have bound : s.count < 2 ^ Layout.setCount.width := Nat.lt_of_le_of_lt fits.count_le (by decide)
  rw [window, Field.place_or_place (by decide), Field.extract_insert_of_apart (by decide)]
  exact Field.toNat_extract_insert _ bound

def Covers (s : Stroke) (p : Nat) : Prop := (p + 32 - s.base) % 32 < s.count

def level (s : Stroke) (p : Nat) : Bool := s.data.getLsbD ((p + 32 - s.base) % 32)

def apply (s : Stroke) (pins : Word) : Word := Pads.assign s.base s.count s.data pins

instance : DecidablePred s.Covers := fun _ => inferInstanceAs (Decidable (_ < _))

theorem getLsbD_apply (fits : s.Fits) (pins : Word) (below : p < 32) :
    (s.apply pins).getLsbD p = if s.Covers p then s.level p else pins.getLsbD p :=
  Pads.getLsbD_assign _ _ fits.base_lt (Nat.le_trans fits.count_le (by decide)) below

theorem assign_setData (fits : s.Fits) (pins : Word) :
    Pads.assign s.base s.count s.instruction.setData pins = s.apply pins := by
  have data := Instruction.setData_set s.destination ⟨s.data.toNat % 32, Nat.mod_lt _ (by decide)⟩
  refine Pads.assign_congr pins fits.base_lt (Nat.le_trans fits.count_le (by decide)) ?_
  intro j inside
  have narrow : j < 5 := Nat.lt_of_lt_of_le inside fits.count_le
  have word : j < 32 := by omega
  rw [instruction, data, BitVec.getLsbD_ofNat]
  change (decide (j < 32) && (s.data.toNat % 2 ^ 5).testBit j) = s.data.toNat.testBit j
  rw [Nat.testBit_mod_two_pow, decide_eq_true narrow, decide_eq_true word, Bool.true_and,
    Bool.true_and]

theorem execute_window (fits : s.Fits) (pads : Pads) :
    pads.execute s.window s.instruction = pads.modify s.destination s.apply := by
  have destination : s.instruction.setDestination? = some s.destination :=
    Instruction.setDestination?_set s.destination ⟨s.data.toNat % 32, Nat.mod_lt _ (by decide)⟩
  have put : Pads.assign s.base s.count s.instruction.setData = s.apply :=
    funext (assign_setData fits)
  simp only [Pads.execute, destination, base_window fits, count_window fits, put]

def applyAll (strokes : List Stroke) (pins : Word) : Word :=
  strokes.foldl (fun pins s => s.apply pins) pins

theorem foldl_execute {d : SetDestination} (fit : ∀ s ∈ strokes, s.Fits)
    (same : ∀ s ∈ strokes, s.destination = d) (pads : Pads) :
    strokes.foldl (fun pads s => pads.execute s.window s.instruction) pads =
      pads.modify d (applyAll strokes) := by
  induction strokes generalizing pads with
  | nil => exact (pads.modify_id d).symm
  | cons s rest ih =>
    rw [List.foldl_cons, execute_window (fit s (List.mem_cons_self ..)),
      same s (List.mem_cons_self ..), ih (fun t h => fit t (List.mem_cons_of_mem _ h))
        (fun t h => same t (List.mem_cons_of_mem _ h)), Pads.modify_modify]
    rfl

theorem getLsbD_applyAll (fit : ∀ s ∈ strokes, s.Fits) (pins : Word) (below : p < 32)
    {level : Bool} (agree : ∀ s ∈ strokes, s.Covers p → s.level p = level) :
    (applyAll strokes pins).getLsbD p =
      if ∃ s ∈ strokes, s.Covers p then level else pins.getLsbD p := by
  induction strokes generalizing pins with
  | nil => simp [applyAll]
  | cons s rest ih =>
    -- The induction runs over all pins to start from, since the rest starts where `s` left them.
    have later := ih (fun t h => fit t (List.mem_cons_of_mem _ h)) (s.apply pins)
      fun t h => agree t (List.mem_cons_of_mem _ h)
    have first := getLsbD_apply (fit s (List.mem_cons_self ..)) pins below
    rw [applyAll] at later
    rw [applyAll, List.foldl_cons, later, first]
    by_cases more : ∃ t ∈ rest, t.Covers p
    · simp [more]
    · by_cases covered : s.Covers p
      · simp [more, covered, agree s (List.mem_cons_self ..) covered]
      · simp [more, covered]

theorem fits_allPins (values : Word) : ∀ s ∈ allPins values, s.Fits := by
  intro s member
  obtain ⟨k, range, rfl⟩ := List.mem_map.mp member
  rw [List.mem_range] at range
  exact ⟨by change 5 * k < 32; omega, Nat.min_le_left _ _⟩

theorem applyAll_allPins (values pins : Word) : applyAll (allPins values) pins = values := by
  apply BitVec.eq_of_getLsbD_eq
  intro p below
  have agree : ∀ s ∈ allPins values, s.Covers p → s.level p = values.getLsbD p := by
    intro s member covers
    obtain ⟨k, range, rfl⟩ := List.mem_map.mp member
    rw [List.mem_range] at range
    have inside : (p + 32 - 5 * k) % 32 < min 5 (32 - 5 * k) := covers
    have place : 5 * k + (p + 32 - 5 * k) % 32 = p := by omega
    rw [level, BitVec.getLsbD_ushiftRight]
    exact congrArg values.getLsbD place
  have covered : ∃ s ∈ allPins values, s.Covers p := by
    refine ⟨_, List.mem_map_of_mem (List.mem_range.mpr (show p / 5 < 7 by omega)), ?_⟩
    change (p + 32 - 5 * (p / 5)) % 32 < min 5 (32 - 5 * (p / 5))
    omega
  rw [getLsbD_applyAll (fits_allPins values) pins below agree, if_pos covered]

theorem fits_masked (d : SetDestination) (values mask : Word) :
    ∀ s ∈ masked d values mask, s.Fits := by
  intro s member
  obtain ⟨pin, one, rfl⟩ := List.mem_map.mp member
  exact ⟨lt_of_mem_setBits one, (by decide : 1 ≤ Layout.setWindow)⟩

theorem applyAll_masked (d : SetDestination) (values mask pins : Word) :
    applyAll (masked d values mask) pins = (pins &&& ~~~mask) ||| (values &&& mask) := by
  apply BitVec.eq_of_getLsbD_eq
  intro p below
  have only : ∀ pin < 32, (p + 32 - pin) % 32 < 1 ↔ pin = p := by omega
  have agree : ∀ s ∈ masked d values mask, s.Covers p → s.level p = values.getLsbD p := by
    intro s member covers
    obtain ⟨pin, one, rfl⟩ := List.mem_map.mp member
    obtain rfl := (only pin (lt_of_mem_setBits one)).mp covers
    simp [level]
  have covered : (∃ s ∈ masked d values mask, s.Covers p) ↔ mask.getLsbD p = true := by
    constructor
    · rintro ⟨s, member, covers⟩
      obtain ⟨pin, one, rfl⟩ := List.mem_map.mp member
      obtain rfl := (only pin (lt_of_mem_setBits one)).mp covers
      exact mem_setBits.mp one
    · exact fun one =>
        ⟨_, List.mem_map_of_mem (mem_setBits.mpr one), (only p below).mpr rfl⟩
  rw [getLsbD_applyAll (fits_masked d values mask) pins below agree, BitVec.getLsbD_or,
    BitVec.getLsbD_and, BitVec.getLsbD_and, BitVec.getLsbD_not]
  cases one : mask.getLsbD p with
  | true => rw [if_pos (covered.mpr one)]; simp
  | false => rw [if_neg (by rw [covered, one]; decide)]; simp [below]

theorem mem_windows_bounds {base count : Nat} (in_pins : base < 32) :
    ∀ w ∈ windows base count, w.1 < 32 ∧ w.2 ≤ Layout.setWindow := by
  induction base, count using windows.induct with
  | case1 base count more ih =>
    rw [windows, if_pos more]
    intro w member
    rcases List.mem_cons.mp member with rfl | member
    · exact ⟨in_pins, Nat.le_refl _⟩
    · exact ih (Nat.mod_lt _ (by decide)) w member
  | case2 base count rest =>
    rw [windows, if_neg rest]
    intro w member
    obtain rfl := List.mem_singleton.mp member
    exact ⟨in_pins, Nat.not_lt.mp rest⟩

/-- The windows hold the pins from `base` on, around the end, and no other. -/
theorem exists_mem_windows {base count p : Nat} (in_pins : base < 32) (small : count ≤ 32)
    (below : p < 32) :
    (∃ w ∈ windows base count, (p + 32 - w.1) % 32 < w.2) ↔ (p + 32 - base) % 32 < count := by
  induction base, count using windows.induct with
  | case1 base count more ih =>
    have later := ih (Nat.mod_lt _ (by decide)) (Nat.le_trans (Nat.sub_le ..) small)
    have wide : 5 < count := more
    rw [windows, if_pos more]
    simp only [List.mem_cons, exists_eq_or_imp, later]
    clear ih later
    simp only [Layout.setWindow]
    omega
  | case2 base count rest =>
    rw [windows, if_neg rest]
    simp

theorem fits_consecutive {base count : Nat} (in_pins : base < 32) (isOut : Bool) :
    ∀ s ∈ consecutive base count isOut, s.Fits := by
  intro s member
  obtain ⟨w, listed, rfl⟩ := List.mem_map.mp member
  exact ⟨(mem_windows_bounds in_pins w listed).1, (mem_windows_bounds in_pins w listed).2⟩

theorem getLsbD_applyAll_consecutive {base count : Nat} (in_pins : base < 32) (small : count ≤ 32)
    (isOut : Bool) (pins : Word) {p : Nat} (below : p < 32) :
    (applyAll (consecutive base count isOut) pins).getLsbD p =
      if (p + 32 - base) % 32 < count then isOut else pins.getLsbD p := by
  have agree : ∀ s ∈ consecutive base count isOut, s.Covers p → s.level p = isOut := by
    intro s member covers
    obtain ⟨w, listed, rfl⟩ := List.mem_map.mp member
    have inside : (p + 32 - w.1) % 32 < 5 :=
      Nat.lt_of_lt_of_le covers (mem_windows_bounds in_pins w listed).2
    have ones : ∀ j : Fin 5, (0x1f : Word).getLsbD j = true := by decide
    cases isOut with
    | true => exact ones ⟨_, inside⟩
    | false => exact BitVec.getLsbD_zero
  have covered : (∃ s ∈ consecutive base count isOut, s.Covers p) ↔
      (p + 32 - base) % 32 < count := by
    rw [← exists_mem_windows in_pins small below]
    simp only [consecutive, List.mem_map, exists_exists_and_eq_and, Covers]
  rw [getLsbD_applyAll (fits_consecutive in_pins isOut) pins below agree]
  simp only [covered]

end Stroke

namespace Control

def strokeItems (sm : StateMachine) (strokes : List Stroke) : List (PioRegister × Word) :=
  strokes.flatMap fun s =>
    [(.machine sm .pinctrl, s.window), (.machine sm .instr, s.instruction.setWidth 32)]

theorem strokeWrites_eq (h : Handle) (sm : StateMachine) (strokes : List Stroke) :
    strokeWrites h sm strokes =
      (strokeItems sm strokes).map fun item => (h.address item.1, item.2) := by
  rw [strokeItems, List.map_flatMap]
  rfl

end Control

end PioBlock
