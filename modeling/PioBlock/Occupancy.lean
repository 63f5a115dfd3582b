import PioBlock.Program

/-! Which of the 32 instruction slots are taken, as a word with one bit per slot. A request
names a set of slots, either in place or free to move around the memory; among the places of
a moving one, the first that is free wins. -/

namespace PioBlock

/-- A request for slots: in place at an offset, or movable from slot 0. -/
structure SlotRequest where
  slots : Word
  offset : Option Nat
deriving DecidableEq, Repr

/-- Slots found for a request, and the offset they start at. -/
structure Placement where
  offset : Nat
  slots : Word
deriving DecidableEq, Repr

def isFree (taken slots : Word) : Bool := taken &&& slots == 0

theorem isFree_iff {taken slots : Word} :
    isFree taken slots = true ↔ ∀ i, taken.getLsbD i = true → slots.getLsbD i = false := by
  rw [isFree, beq_iff_eq]
  constructor
  · intro h i ht
    have hi := congrArg (·.getLsbD i) h
    simpa [ht] using hi
  · intro h
    apply BitVec.eq_of_getLsbD_eq
    intro i _
    rw [BitVec.getLsbD_and]
    cases ht : taken.getLsbD i with
    | false => simp
    | true => simp [h i ht]

namespace SlotRequest

/-- The placements that would serve the request, in the order they are tried. -/
def candidates (r : SlotRequest) : List Placement :=
  match r.offset with
  | some offset => [⟨offset, r.slots⟩]
  | none => (List.range 32).map fun offset => ⟨offset, r.slots.rotateLeft offset⟩

def place? (r : SlotRequest) (taken : Word) : Option Placement :=
  r.candidates.find? (isFree taken ·.slots)

theorem isFree_of_place? {r : SlotRequest} {taken : Word} {p : Placement}
    (h : r.place? taken = some p) : isFree taken p.slots = true := by
  simpa using List.find?_some h

theorem mem_candidates_of_place? {r : SlotRequest} {taken : Word} {p : Placement}
    (h : r.place? taken = some p) : p ∈ r.candidates :=
  List.mem_of_find?_eq_some h

end SlotRequest

inductive RequestFault where
  | originMismatch (origin : Slot) (offset : Nat)
  | outside (offset : Nat)
deriving DecidableEq, Repr

namespace Program

def slotsAt (p : Program) (offset : Nat) : Word := p.baseMask.rotateLeft offset

/-- What the program asks for, at an offset of the caller's choice or anywhere. A program with
an origin is only ever asked for there. -/
def request (p : Program) (offset : Option Nat) : Except RequestFault SlotRequest :=
  match p.origin, offset with
  | some origin, some offset =>
    if origin.val = offset then .ok ⟨p.allocationMask, some origin.val⟩
    else .error (.originMismatch origin offset)
  | some origin, none => .ok ⟨p.allocationMask, some origin.val⟩
  | none, some offset =>
    if offset < 32 then .ok ⟨p.slotsAt offset, some offset⟩ else .error (.outside offset)
  | none, none => .ok ⟨p.baseMask, none⟩

theorem request_offset_lt {p : Program} {offset : Option Nat} {r : SlotRequest} {n : Nat}
    (h : p.request offset = .ok r) (hn : r.offset = some n) : n < 32 := by
  unfold request at h
  split at h
  · split at h <;> cases h
    cases hn
    exact Fin.isLt _
  · cases h
    cases hn
    exact Fin.isLt _
  · split at h
    · next lt => cases h; cases hn; exact lt
    · cases h
  · cases h; cases hn

theorem slots_of_mem_candidates {p : Program} {offset : Option Nat} {r : SlotRequest}
    {found : Placement} (h : p.request offset = .ok r) (m : found ∈ r.candidates) :
    found.slots = p.slotsAt found.offset := by
  unfold request at h
  split at h
  · next ho =>
    split at h <;> cases h
    simp only [SlotRequest.candidates, List.mem_singleton] at m
    subst m
    simp [allocationMask, slotsAt, start, ho]
  · next ho =>
    cases h
    simp only [SlotRequest.candidates, List.mem_singleton] at m
    subst m
    simp [allocationMask, slotsAt, start, ho]
  · split at h <;> cases h
    simp only [SlotRequest.candidates, List.mem_singleton] at m
    subst m
    rfl
  · cases h
    simp only [SlotRequest.candidates, List.mem_map] at m
    obtain ⟨n, _, rfl⟩ := m
    rfl

end Program

end PioBlock
