import PioBlock.Proofs.CodeMemory
import PioBlock.Proofs.FlatHosting
import PioBlock.Proofs.ProgramConfig
import PioBlock.Proofs.Session

/-! A program is installed by loading it and configuring a state machine for where it went. Both
steps succeed on register files that are served as they are, and what they leave in the registers
is one description of the program: its words from the offset on and the wrap beside them. -/

namespace PioBlock

namespace Dispatch

variable {β : Type} [RegisterBlock β]

def wrapAt (d : Dispatch β) (position : Nat) (sm : StateMachine) : Option (Nat × Nat) :=
  (d.wordAt position (.machine sm .execctrl)).map fun w =>
    ((Layout.wrapBottom.extract w).toNat, (Layout.wrapTop.extract w).toNat)

theorem wrapAt_eq_wrap {d : Dispatch β} {position : Nat} {sm : StateMachine} {c : Config}
    (h : d.wordAt position (.machine sm .execctrl) = some c.execctrl) :
    d.wrapAt position sm = some c.wrap := by
  rw [wrapAt, h]
  rfl

/-- The registers of the block hold the program at `offset` and its wrap. -/
structure Carries (d : Dispatch β) (position : Nat) (sm : StateMachine) (p : Program)
    (offset : Nat) : Prop where
  word : ∀ n i, p.instructions[n]? = some i →
    d.wordAt position (.instrMem (slotAt offset n)) = some (p.wordFor offset i)
  wrap : d.wrapAt position sm =
    some ((Config.placedWrap p offset).1.val, (Config.placedWrap p offset).2.val)

end Dispatch

namespace Session

open Control

section Configure

variable {σ : Type} [RegisterSpace σ]

def configuring (s : Session σ) (sm : StateMachine) (c : Config) :
    Run σ (Except RegisterError Unit) :=
  (ExceptT.run (Transaction.writeAll ((configWords sm c).map fun store =>
    (Layout.address s.handle.base store.1.index, store.2)))).run s.space

theorem perform_configure (s : Session σ) (polls : Nat) (sm : StateMachine) (c : Config) :
    s.perform polls (.configure sm.val c) =
      match (s.configuring sm c).value with
      | .ok () => ⟨s, .configure sm.val c, .ok .done,
          { s with space := (s.configuring sm c).space }⟩
      | .error f => ⟨s, .configure sm.val c, .error (.error (.register f)),
          { s with space := (s.configuring sm c).space }⟩ := by
  have started : (configure sm c).start s.handle =
      (Transaction.writeAll ((configWords sm c).map fun store =>
        (Layout.address s.handle.base store.1.index, store.2))).run >>= fun outcome =>
          pure (outcome.mapError (.error ∘ .register), s.handle) := by
    rw [configure, start_bind, start_get]
    exact start_transact _ _
  rw [perform, Operation.perform, Operation.machine_val, pure_bind, Operation.acting, start_bind,
    started]
  simp only [Procedure.bind_assoc, Procedure.run_bind]
  rw [configuring]
  generalize Procedure.run _ s.space = configured
  obtain ⟨f | _, space, trace⟩ := configured <;> rfl

end Configure

variable {β : Type} [RegisterBlock β] {s t : Session (Dispatch β)} {position pio : Nat}

/-- The handle is one on block `pio` where the hardware has it, and the space hosts that block. -/
def Reaches (position pio : Nat) (s : Session (Dispatch β)) : Prop :=
  Layout.blockBase? pio = some s.handle.base ∧
    ∃ block, s.space.Hosts position pio s.handle.base block

/-- The program is loaded at `offset`, asked for or found, and a state machine is configured for
it there. -/
def Installs (s : Session (Dispatch β)) (polls : Nat) (sm : StateMachine) (p : Program)
    (offset : Nat) (t : Session (Dispatch β)) : Prop :=
  ∃ asked config, (s.perform polls (.load p asked)).outcome = .ok (.number offset) ∧
    Config.forProgram p offset = .ok config ∧
    ((s.perform polls (.load p asked)).after.perform polls
      (.configure sm.val config)).outcome = .ok .done ∧
    t = ((s.perform polls (.load p asked)).after.perform polls (.configure sm.val config)).after

variable {polls offset : Nat} {sm : StateMachine} {p : Program}

theorem carries_of_installs [LawfulBlock β] (reaches : s.Reaches position pio)
    (installs : s.Installs polls sm p offset t) : t.space.Carries position sm p offset := by
  obtain ⟨mapped, block, hosts⟩ := reaches
  have window := Layout.isWindow_of_blockBase? mapped
  obtain ⟨asked, config, loaded, configures, configured, rfl⟩ := installs
  obtain ⟨stand, done, space, base⟩ := perform_load_ok loaded
  obtain ⟨words, holds⟩ := hosts.holds
  obtain ⟨code, ⟨words₁, holds₁, agree⟩, -, stored⟩ :=
    Dispatch.HoldsCode.writeProgram ⟨words, holds, fun _ => rfl⟩ window p offset
  change (s.writing p offset).space.Holds position pio s.handle.base words₁ at holds₁
  rw [← space] at holds₁
  rw [← base] at holds₁ window
  generalize (s.perform polls (.load p asked)).after = loaded at holds₁ window configured ⊢
  obtain ⟨words₂, holds₂, kept, set⟩ := holds₁.writeAll window (configWords sm config)
  rw [perform_configure] at configured ⊢
  split at configured
  · next written =>
    constructor
    · intro n i at_n
      have apart : .instrMem (slotAt offset n) ∉ (configWords sm config).map Prod.fst := by
        simp [configWords]
      rw [← stored done n i at_n, ← agree, ← kept _ apart]
      exact holds₂.wordAt_eq _
    · have unlike : ((configWords sm config).map Prod.fst).Nodup := by simp [configWords]
      have execctrl := set written unlike (.machine sm .execctrl, config.execctrl)
        (by simp [configWords])
      have word := holds₂.wordAt_eq (.machine sm .execctrl)
      rw [execctrl.trans (Alias.apply_write_plain config.execctrl _)] at word
      obtain ⟨config', configures', wrapped⟩ := Config.forProgram_eq_ok p stand.1
      cases configures.symm.trans configures'
      rw [← wrapped]
      exact Dispatch.wrapAt_eq_wrap word
  · cases configured

/-- On register files that are served as they are, a program is installed wherever it may stand
and no slot is taken. -/
theorem installs_of_disjoint {s : Session (Dispatch RegisterFile)} (reaches : s.Reaches position pio)
    (polls : Nat) (sm : StateMachine) (stand : p.CanStandAt offset)
    (free : Disjoint (slotsOf s.handle.occupancy) (p.slotSet offset)) :
    ∃ t, s.Installs polls sm p offset t := by
  obtain ⟨mapped, block, hosts⟩ := reaches
  have window := Layout.isWindow_of_blockBase? mapped
  obtain ⟨words, holds⟩ := hosts.holds
  obtain ⟨config, configures, -⟩ := Config.forProgram_eq_ok p stand.1
  have written : (s.writing p offset).value = .ok () := by
    rw [writing, Program.loadWrites_eq]
    exact holds.writeAll_value_eq_ok window _
  have empty : isFree s.handle.occupancy (p.slotsAt offset) = true := by
    rw [isFree_iff_disjoint, Program.slotsOf_slotsAt]
    exact free
  have loads := perform_load_of_isFree polls stand empty written
  obtain ⟨-, -, space, base⟩ := perform_load_ok loads
  have holds' : ∃ words', (s.writing p offset).space.Holds position pio s.handle.base words' := by
    rw [writing, Program.loadWrites_eq]
    obtain ⟨words', holds', -⟩ := holds.writeAll window (p.stores offset)
    exact ⟨words', holds'⟩
  obtain ⟨words', holds'⟩ := holds'
  refine ⟨_, some offset, config, loads, configures, ?_, rfl⟩
  rw [← space] at holds'
  rw [← base] at holds' window
  rw [perform_configure]
  have configured := holds'.writeAll_value_eq_ok window (configWords sm config)
  change (configuring _ sm config).value = .ok () at configured
  rw [configured]

end Session

end PioBlock
