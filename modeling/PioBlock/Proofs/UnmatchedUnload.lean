import PioBlock.Proofs.Residents

/-! Unloading a program that is not loaded at the offset. A handle keeps no record of programs, so
all it can tell is whether the slots are taken. If one of them is free, or the program cannot be
asked for there, then the call fails and changes nothing. Otherwise the slots are those of other
residents. They are given back all the same: the residents stay, but no longer hold all their
slots, and the next program may be written over them. -/

namespace PioBlock

namespace Program

theorem request_of_not_canStandAt {p : Program} {offset : Nat} (stand : ¬ p.CanStandAt offset) :
    ∃ e, p.request (some offset) = .error e := by
  unfold request
  cases fixed : p.origin with
  | none =>
    have outside : ¬ offset < 32 := fun lt =>
      stand ⟨lt, fun origin given => nomatch fixed.symm.trans given⟩
    exact ⟨_, if_neg outside⟩
  | some origin =>
    have elsewhere : ¬ origin.val = offset := by
      rintro rfl
      exact stand ⟨origin.isLt, fun other given => by
        rw [Option.some.inj (fixed.symm.trans given)]⟩
    exact ⟨_, if_neg elsewhere⟩

end Program

namespace Session

variable {σ : Type} {s : Session σ} {p : Program} {offset : Nat}

/-- Every slot of the program at this offset is one of a resident. -/
def Overlays (s : Session σ) (p : Program) (offset : Nat) : Prop :=
  ∀ slot ∈ p.slotSet offset, ∃ r ∈ s.residents, slot ∈ r.slots

theorem Consistent.overlays_iff (c : s.Consistent) :
    s.Overlays p offset ↔ p.slotSet offset ⊆ slotsOf s.handle.occupancy :=
  forall₂_congr fun slot _ => (c.taken slot).symm

variable [RegisterSpace σ]

theorem Consistent.perform_unload_refused (c : s.Consistent) (polls : Nat)
    (unfit : ¬(p.CanStandAt offset ∧ s.Overlays p offset)) :
    ∃ f, s.perform polls (.unload p offset) = ⟨s, .unload p offset, .error f, s⟩ := by
  rw [Session.perform_unload]
  by_cases stand : p.CanStandAt offset
  · have free : ¬ p.slotSet offset ⊆ slotsOf s.handle.occupancy := fun taken =>
      unfit ⟨stand, c.overlays_iff.mpr taken⟩
    simp only [Program.request_of_canStandAt stand, if_neg free]
    exact ⟨_, rfl⟩
  · obtain ⟨e, refused⟩ := Program.request_of_not_canStandAt stand
    simp only [refused]
    exact ⟨_, rfl⟩

theorem Consistent.perform_unload_overlaid (c : s.Consistent) (polls : Nat)
    (absent : ⟨p, offset⟩ ∉ s.residents) (stand : p.CanStandAt offset)
    (overlaid : s.Overlays p offset) :
    s.perform polls (.unload p offset) = ⟨s, .unload p offset, .ok .done,
      ⟨{ s.handle with occupancy := s.handle.occupancy &&& ~~~p.slotsAt offset }, s.space,
        s.residents⟩⟩ := by
  rw [Session.perform_unload, Program.request_of_canStandAt stand]
  simp only [if_pos (c.overlays_iff.mp overlaid), List.erase_of_not_mem absent]

theorem isFree_and_not_slotsAt (taken : Word) :
    isFree (taken &&& ~~~p.slotsAt offset) (p.slotsAt offset) = true := by
  rw [isFree_iff_disjoint, slotsOf_and_not]
  exact Finset.sdiff_disjoint

/-- After any calls, unloading a program that is not loaded at the offset fails without a change,
unless it could be loaded there and all its slots are held by residents. Then these slots are given
back: the residents are still there, one of them has lost a slot, and the program is loaded over
them as soon as it is asked for. -/
theorem unload_of_not_resident (index : Nat) (base : Word) (space : σ) (polls : Nat)
    (calls : List Operation)
    (permitted : ∀ e ∈ (fresh (Handle.at_ index base) space).history polls calls,
      e.before.Permits e.call) :
    ∀ s ∈ fresh (Handle.at_ index base) space ::
        ((fresh (Handle.at_ index base) space).history polls calls).map (·.after),
      ∀ p offset, ⟨p, offset⟩ ∉ s.residents →
        (¬(p.CanStandAt offset ∧ s.Overlays p offset) →
          ∃ f, s.perform polls (.unload p offset) = ⟨s, .unload p offset, .error f, s⟩) ∧
        (p.CanStandAt offset → s.Overlays p offset →
          ∃ t, s.perform polls (.unload p offset) = ⟨s, .unload p offset, .ok .done, t⟩ ∧
            t.space = s.space ∧ t.residents = s.residents ∧
            slotsOf t.handle.occupancy = slotsOf s.handle.occupancy \ p.slotSet offset ∧
            (∃ r ∈ t.residents, ∃ slot ∈ r.slots, slot ∉ slotsOf t.handle.occupancy) ∧
            ((t.writing p offset).value = .ok () →
              (t.perform polls (.load p (some offset))).outcome = .ok (.number offset))) := by
  intro s reached p offset absent
  have c : s.Consistent := by
    rcases List.mem_cons.mp reached with rfl | later
    · exact consistent_fresh index base space
    · obtain ⟨e, happened, rfl⟩ := List.mem_map.mp later
      exact (consistent_history permitted e happened).2
  refine ⟨c.perform_unload_refused polls, fun stand overlaid => ?_⟩
  have freed : slotsOf (s.handle.occupancy &&& ~~~p.slotsAt offset) =
      slotsOf s.handle.occupancy \ p.slotSet offset := by
    rw [slotsOf_and_not, Program.slotsOf_slotsAt]
  refine ⟨_, c.perform_unload_overlaid polls absent stand overlaid, rfl, rfl, freed, ?_,
    perform_load_of_isFree polls stand (isFree_and_not_slotsAt _)⟩
  obtain ⟨slot, own⟩ := p.slotSet_nonempty offset
  obtain ⟨r, member, held⟩ := overlaid slot own
  refine ⟨r, member, slot, held, fun kept => ?_⟩
  rw [freed] at kept
  exact (Finset.mem_sdiff.mp kept).2 own

/-! The loop of two instructions is loaded, and another program of two is unloaded from there. -/

def sampleCount : Program :=
  { sampleLoop with
    instructions := [0xe001, 0xe002]
    instructions_pos := by decide
    instructions_le := by decide }

def sampleBlock : Dispatch RegisterFile := ⟨[RegisterFile.pioAt 0 0x50200000]⟩

theorem unload_of_not_resident_sampleCount :
    ∃ s t, s ∈ ((fresh (Handle.at_ 0 0x50200000) sampleBlock).history 1
        [.load sampleLoop (some 0)]).map (·.after) ∧
      s.perform 1 (.unload sampleCount 0) = ⟨s, .unload sampleCount 0, .ok .done, t⟩ ∧
      t.residents = [⟨sampleLoop, 0⟩] ∧
      (t.perform 1 (.load sampleCount (some 0))).outcome = .ok (.number 0) := by
  let s := ((fresh (Handle.at_ 0 0x50200000) sampleBlock).perform 1
    (.load sampleLoop (some 0))).after
  have permitted : ∀ e ∈ (fresh (Handle.at_ 0 0x50200000) sampleBlock).history 1
      [.load sampleLoop (some 0)], e.before.Permits e.call := by decide +kernel
  have residents : s.residents = [⟨sampleLoop, 0⟩] := by decide +kernel
  have absent : ⟨sampleCount, 0⟩ ∉ s.residents := by decide +kernel
  have overlaid : s.Overlays sampleCount 0 := by
    unfold Overlays
    decide +kernel
  obtain ⟨t, unloaded, -, kept, -, -, reload⟩ := (unload_of_not_resident 0 0x50200000 sampleBlock 1
    [.load sampleLoop (some 0)] permitted s (.tail _ (.head _)) sampleCount 0 absent).2
    ⟨by decide, nofun⟩ overlaid
  have after : (s.perform 1 (.unload sampleCount 0)).after = t := by rw [unloaded]
  have written : (t.writing sampleCount 0).value = .ok () := by
    rw [← after]
    decide +kernel
  exact ⟨s, t, .head _, unloaded, kept.trans residents, reload written⟩

/-- So it is not the case that such a call always fails and leaves the taken slots alone. -/
theorem not_unload_always_refused :
    ¬ ∀ calls : List Operation, ∀ s ∈ ((fresh (Handle.at_ 0 0x50200000) sampleBlock).history 1
        calls).map (·.after), ∀ p offset, ⟨p, offset⟩ ∉ s.residents →
      (∃ f, (s.perform 1 (.unload p offset)).outcome = .error f) ∧
      (s.perform 1 (.unload p offset)).after.handle.occupancy = s.handle.occupancy := by
  intro always
  have unchanged := (always [.load sampleLoop (some 0)] _ (.head _) sampleCount 0
    (by decide +kernel)).2
  revert unchanged
  decide +kernel

end Session

end PioBlock
