import PioBlock.Proofs.CodeMemory
import PioBlock.Proofs.FirstFit
import PioBlock.Proofs.UnmatchedUnload

/-! Where a built program stands. A draft is built exactly when each of its parts is in range. The
mask of the program is computed from its length by a shift and a rotation, the slots that a load
writes are counted on from the load offset, and the slots that are given back are rotated once more.
All three are the slots from an offset on, around the end of the memory, one for each instruction;
and where a draft leaves the loop open, it goes from the last of these slots back to the first. -/

namespace PioBlock

theorem lowBits_eq_shift (n : Nat) :
    lowBits n = if 32 ≤ n then allBits else (1#32 <<< n) - 1#32 := by
  split
  · next full => exact lowBits_of_le full
  · next short =>
    have one_lt : 2 ^ n < 2 ^ 32 := Nat.pow_lt_pow_right (by decide) (by omega)
    have one_pos : 0 < 2 ^ n := Nat.two_pow_pos n
    have value : ((1#32 <<< n) - 1#32).toNat = 2 ^ n - 1 := by
      rw [BitVec.toNat_sub, BitVec.toNat_shiftLeft, Nat.shiftLeft_eq]
      simp only [BitVec.toNat_ofNat]
      omega
    apply BitVec.eq_of_getLsbD_eq
    intro i lt
    rw [getLsbD_lowBits, BitVec.getLsbD, value, Nat.testBit_two_pow_sub_one, decide_eq_true lt,
      Bool.true_and]

namespace Draft

/-- Every part of the draft is in range. -/
structure InRange (d : Draft) : Prop where
  id_ne_empty : d.id ≠ some ""
  origin_lt : ∀ n, d.origin = some n → n < 32
  wrap_lt : ∀ n, d.wrap = some n → n < 32
  wrapTarget_lt : ∀ n, d.wrapTarget = some n → n < 32
  sideSet_le : d.sideSet.count ≤ if d.sideSet.isOptional then 4 else 5
  instructions_pos : 1 ≤ d.instructions.length
  instructions_le : d.instructions.length ≤ 32

def start (d : Draft) : Nat := d.origin.getD 0

/-- The program has the parts of the draft. The loop goes from the slot of its last instruction to
that of its first where the draft does not say otherwise. -/
structure Describes (d : Draft) (p : Program) : Prop where
  id_eq : p.id = d.id
  origin_eq : p.origin.map (·.val) = d.origin
  wrap_eq : p.wrap.val = d.wrap.getD (slotAt d.start (d.instructions.length - 1)).val
  wrapTarget_eq : p.wrapTarget.val = d.wrapTarget.getD (slotAt d.start 0).val
  sideSet_eq : p.sideSet = d.sideSet
  instructions_eq : p.instructions = d.instructions

variable {d : Draft} {p : Program}

theorem exists_slot? (refusal : Nat → ProgramError) {given : Option Nat}
    (lt : ∀ n, given = some n → n < 32) :
    ∃ slot : Option Slot, slot? refusal given = .ok slot ∧ slot.map (·.val) = given := by
  cases given with
  | none => exact ⟨none, rfl, rfl⟩
  | some n => exact ⟨some ⟨n, lt n rfl⟩, dif_pos (lt n rfl), rfl⟩

theorem exists_build (sound : d.InRange) : ∃ p, d.build = .ok p := by
  obtain ⟨id_ne, origin_lt, wrap_lt, target_lt, side, pos, le⟩ := sound
  obtain ⟨origin, from_origin, -⟩ := exists_slot? .originOutOfRange origin_lt
  obtain ⟨wrap, from_wrap, -⟩ := exists_slot? .wrapOutOfRange wrap_lt
  obtain ⟨target, from_target, -⟩ := exists_slot? .wrapTargetOutOfRange target_lt
  have fits : d.sideSet.count ≤ d.sideSet.maxCount := side
  have some_code : 0 < d.instructions.length := pos
  simp only [build, dif_pos id_ne, from_origin, from_wrap, from_target, dif_pos fits,
    dif_pos some_code, dif_pos le]
  exact ⟨_, rfl⟩

theorem describes_of_build (built : d.build = .ok p) : d.Describes p := by
  unfold build at built
  split at built
  · split at built
    · cases built
    next origin from_origin =>
    split at built
    · cases built
    next wrap from_wrap =>
    split at built
    · cases built
    next target from_target =>
    split at built
    · split at built
      · split at built
        · cases built
          have origin_eq := slot?_eq_ok_iff.mp from_origin
          have start_eq : d.start = (origin.map (·.val)).getD 0 := by rw [start, origin_eq]
          refine ⟨rfl, origin_eq.symm, ?_, ?_, rfl, rfl⟩
          · rw [slot?_eq_ok_iff.mp from_wrap, start_eq]
            cases wrap <;> rfl
          · rw [slot?_eq_ok_iff.mp from_target, start_eq]
            cases target with
            | some target => rfl
            | none =>
              cases origin with
              | none => rfl
              | some origin => exact (Nat.mod_eq_of_lt origin.isLt).symm
        · cases built
      · cases built
    · cases built
  · cases built

theorem Describes.inRange (describes : d.Describes p) : d.InRange where
  id_ne_empty := describes.id_eq ▸ p.id_ne_empty
  origin_lt n given := by
    obtain ⟨slot, -, rfl⟩ := Option.map_eq_some_iff.mp (describes.origin_eq.trans given)
    exact slot.isLt
  wrap_lt n given := by
    have wrap := describes.wrap_eq
    rw [given, Option.getD_some] at wrap
    exact wrap ▸ p.wrap.isLt
  wrapTarget_lt n given := by
    have target := describes.wrapTarget_eq
    rw [given, Option.getD_some] at target
    exact target ▸ p.wrapTarget.isLt
  sideSet_le := describes.sideSet_eq ▸ p.sideSet.count_le_maxCount_iff.mpr p.sideSet_le
  instructions_pos := describes.instructions_eq ▸ p.instructions_pos
  instructions_le := describes.instructions_eq ▸ p.instructions_le

theorem Describes.start_eq (describes : d.Describes p) : p.start = d.start := by
  rw [start, ← describes.origin_eq]
  rfl

end Draft

namespace Access

theorem Attempts.map_address {writes : List (Word × Word)} {trace : List Access}
    (attempts : Attempts writes trace) (faultless : ended trace = .ok ()) :
    trace.map address = writes.map Prod.fst := by
  induction attempts with
  | done => rfl
  | granted _ ih => exact congrArg _ (ih faultless)
  | refused e => cases faultless

end Access

namespace Session

open Control

variable {σ : Type} {s : Session σ} {polls : Nat} {p : Program} {asked : Option Nat}
  {offset : Nat} {call : Operation}

def target (s : Session σ) : Operation → Word
  | .loadInto base _ _ => base
  | _ => s.handle.base

theorem start_loads_target (s : Session σ) (polls : Nat) (loads : call.Loads p asked) :
    (call.perform polls).start s.handle =
      (loadInto (s.target call) p asked).start s.handle >>= fun ended =>
        .done (ended.1.map .number, ended.2) := by
  obtain rfl | ⟨base, rfl⟩ := loads
  · exact start_load p asked s.handle ▸ start_perform_load p asked polls s.handle
  · exact start_returning Answer.number (loadInto base p asked) s.handle

variable [RegisterSpace σ]

theorem perform_loads_ok (loads : call.Loads p asked)
    (loaded : (s.perform polls call).outcome = .ok (.number offset)) :
    ∃ found, p.PlacedAs asked s.handle.occupancy found ∧ found.offset = offset ∧
      Access.Attempts (loadWrites (s.target call) p offset) (s.accesses polls call) ∧
      Access.ended (s.accesses polls call) = .ok () ∧
      (s.perform polls call).after.handle =
        { s.handle with occupancy := s.handle.occupancy ||| found.slots } := by
  simp only [perform, accesses, s.start_loads_target polls loads, start_loadInto] at loaded ⊢
  cases requested : p.request asked with
  | error e =>
    rw [requested] at loaded
    cases loaded
  | ok r =>
    cases place : r.place? s.handle.occupancy with
    | none =>
      simp only [requested, place] at loaded
      cases loaded
    | some found =>
      obtain ⟨attempts, ended⟩ :=
        Transaction.attempts_writeAll (loadWrites (s.target call) p found.offset) s.space
      simp only [requested, place, Procedure.bind_assoc, Procedure.run_bind] at loaded ⊢
      generalize Procedure.run _ s.space = written at loaded attempts ended ⊢
      obtain ⟨f | _, space, trace⟩ := written
      · cases loaded
      · cases loaded
        refine ⟨found, ⟨r, requested, place⟩, rfl, ?_, ?_, rfl⟩
        · exact (List.append_nil trace).symm ▸ attempts
        · exact (List.append_nil trace).symm ▸ ended.symm

/-- The slots from the offset on are written in order, one for each instruction, and taken. -/
theorem perform_loads_ok_slots (loads : call.Loads p asked)
    (loaded : (s.perform polls call).outcome = .ok (.number offset)) :
    p.CanStandAt offset ∧
    (s.accesses polls call).map Access.address = (List.range p.length).map (fun n =>
      Layout.address (s.target call) (PioRegister.instrMem (slotAt offset n)).index) ∧
    (s.perform polls call).after.handle =
      { s.handle with occupancy := s.handle.occupancy ||| p.slotsAt offset } := by
  obtain ⟨found, placed, rfl, attempts, ended, handle⟩ := perform_loads_ok loads loaded
  refine ⟨placed.canStandAt, ?_, placed.slots_eq ▸ handle⟩
  have slots := congrArg (List.map fun r => Layout.address (s.target call) (PioRegister.index r))
    (p.stored_eq found.offset)
  rw [attempts.map_address ended, Program.loadWrites_eq, List.map_map]
  rwa [List.map_map, List.map_map] at slots

theorem perform_unload_ok
    (unloaded : (s.perform polls (.unload p offset)).outcome = .ok .done) :
    (s.perform polls (.unload p offset)).after.handle =
      { s.handle with occupancy := s.handle.occupancy &&& ~~~p.slotsAt offset } := by
  rw [perform_unload] at unloaded ⊢
  split at unloaded
  · cases unloaded
  · split at unloaded
    · next taken => rw [if_pos taken]
    · cases unloaded

/-- On the session, the program moves in and out of exactly the slots of its rotated mask. -/
structure MovesSlots (s : Session σ) (p : Program) : Prop where
  load : ∀ polls asked offset call, call.Loads p asked →
    (s.perform polls call).outcome = .ok (.number offset) →
      p.CanStandAt offset ∧
      (s.accesses polls call).map Access.address = (List.range p.length).map (fun n =>
        Layout.address (s.target call) (PioRegister.instrMem (slotAt offset n)).index) ∧
      (s.perform polls call).after.handle =
        { s.handle with occupancy := s.handle.occupancy ||| p.baseMask.rotateLeft offset }
  unload : ∀ polls offset, (s.perform polls (.unload p offset)).outcome = .ok .done →
    (s.perform polls (.unload p offset)).after.handle =
      { s.handle with occupancy := s.handle.occupancy &&& ~~~p.baseMask.rotateLeft offset }

theorem movesSlots (s : Session σ) (p : Program) : s.MovesSlots p where
  load _ _ _ _ loads loaded := perform_loads_ok_slots loads loaded
  unload _ _ unloaded := perform_unload_ok unloaded

end Session

namespace Draft

/-- The slots of a program of `n` instructions: those of its own mask, and those of the mask moved
to an offset. -/
structure Geometry (d : Draft) (p : Program) (n : Nat) : Prop where
  baseMask_eq : p.baseMask = if 32 ≤ n then allBits else (1#32 <<< n) - 1#32
  allocationMask_eq : p.allocationMask = p.baseMask.rotateLeft d.start
  mem_allocationMask : ∀ slot : Slot,
    slot ∈ slotsOf p.allocationMask ↔ ∃ i < n, slot.val = (d.start + i) % 32
  length_setBits : (setBits p.allocationMask).length = n
  mem_moved : ∀ (offset : Nat) (slot : Slot),
    slot ∈ slotsOf (p.baseMask.rotateLeft offset) ↔ ∃ i < n, slot = slotAt offset i

theorem Describes.geometry {d : Draft} {p : Program} (describes : d.Describes p) :
    d.Geometry p d.instructions.length := by
  have length : p.length = d.instructions.length := congrArg List.length describes.instructions_eq
  have moved : ∀ (offset : Nat) (slot : Slot), slot ∈ slotsOf (p.baseMask.rotateLeft offset) ↔
      ∃ i < d.instructions.length, slot = slotAt offset i := by
    intro offset slot
    rw [← length, ← Program.slotsAt, Program.slotsOf_slotsAt, Program.mem_slotSet]
    simp only [eq_comm]
  have placed : p.allocationMask = p.baseMask.rotateLeft d.start := by
    rw [Program.allocationMask, describes.start_eq]
  refine ⟨?base, placed, ?own, ?count, moved⟩
  case base => rw [Program.baseMask, lowBits_eq_shift, length]
  case own =>
    intro slot
    rw [placed, moved]
    simp only [Fin.ext_iff, slotAt_val]
  case count => rw [p.length_setBits_allocationMask, length]

/-- A draft is built exactly when all its parts are in range. The program has these parts and ends
its loop at its last slot where nothing else was asked for; its mask has the slots of its
instructions, and so has the mask moved to any offset, the slots that a load there writes and takes
and those that are given back. -/
theorem geometry_of_build (d : Draft) :
    ((∃ p, d.build = .ok p) ↔ d.InRange) ∧
    ∀ p, d.build = .ok p → d.Describes p ∧ d.Geometry p d.instructions.length ∧
      ∀ (σ : Type) [RegisterSpace σ] (s : Session σ), s.MovesSlots p := by
  refine ⟨⟨?sound, exists_build⟩, fun p built => ?geometry⟩
  case sound =>
    rintro ⟨p, built⟩
    exact (describes_of_build built).inRange
  case geometry =>
    have describes := describes_of_build built
    exact ⟨describes, describes.geometry, fun σ _ s => s.movesSlots p⟩

/-! Four instructions from slot 30 on go around the end of the memory: the loop goes from slot 1
back to slot 30, a load takes slots 30, 31, 0 and 1, and an unload gives them back. -/

def sampleDraft : Draft :=
  { blank with origin := some 30, instructions := [0xe001, 0xe002, 0xe003, 0xe004] }

def sampleAround : Program :=
  { Session.sampleLoop with
    origin := some (slotAt 0 30)
    wrapTarget := slotAt 0 30
    instructions := [0xe001, 0xe002, 0xe003, 0xe004]
    instructions_pos := by decide
    instructions_le := by decide }

theorem geometry_of_build_sampleAround :
    sampleDraft.build = .ok sampleAround ∧ sampleDraft.Describes sampleAround ∧
    sampleDraft.Geometry sampleAround 4 ∧ sampleAround.allocationMask = 0xc0000003 ∧
    ∃ s t : Session (Dispatch RegisterFile),
      (s.accesses 1 (.load sampleAround none)).map Access.address =
        [0x502000c0, 0x502000c4, 0x50200048, 0x5020004c] ∧
      (s.perform 1 (.load sampleAround none)).after = t ∧ t.handle.occupancy = 0xc0000003 ∧
      (t.perform 1 (.unload sampleAround 30)).after.handle.occupancy = 0 := by
  have built : sampleDraft.build = .ok sampleAround := by decide +kernel
  obtain ⟨describes, slots, moves⟩ := (geometry_of_build sampleDraft).2 sampleAround built
  let s := Session.fresh (Handle.at_ 0 0x50200000) Session.sampleBlock
  have loaded : (s.perform 1 (.load sampleAround none)).outcome = .ok (.number 30) := by
    decide +kernel
  obtain ⟨-, addresses, taken⟩ := (moves _ s).load 1 none 30 _ (.inl rfl) loaded
  let t := (s.perform 1 (.load sampleAround none)).after
  have unloaded : (t.perform 1 (.unload sampleAround 30)).outcome = .ok .done := by
    decide +kernel
  have given := (moves _ t).unload 1 30 unloaded
  refine ⟨built, describes, slots, by decide, s, t, addresses.trans (by decide), rfl, ?_, ?_⟩
  · exact (congrArg Handle.occupancy taken).trans (by decide)
  · exact (congrArg Handle.occupancy given).trans (by decide +kernel)

end Draft

end PioBlock
