import PioBlock.Proofs.Scope

/-! What an operation is about. Each operation concerns one state machine, a set of them, the slots
of one program, all slots, or no register at all. An operation that leaves the instruction memory
alone stays within every scope that admits what it is about. -/

namespace PioBlock

/-- What an operation may change registers of. -/
inductive Subject where
  | machine (sm : Nat)
  | machines (mask : Nat)
  | program (p : Program)
  | memory
  | nothing

namespace Scope

structure Strobes (s : Scope) (machines : MachineSet) : Prop where
  enable : ∀ on : Bool, s.writes .ctrl (if on then .set else .clear)
    (Layout.smEnable.place machines.word)
  restart : s.writes .ctrl .set (Layout.smRestart.place machines.word)
  restartDividers : s.writes .ctrl .set (Layout.clkdivRestart.place machines.word)
  enableInSync : s.writes .ctrl .set
    (Layout.clkdivRestart.place machines.word ||| Layout.smEnable.place machines.word)

structure Drives (s : Scope) (sm : StateMachine) : Prop where
  writes {r : MachineRegister} {a : Alias} {value : Word} :
    r ≠ .addr → s.writes (.machine sm r) a value
  changes {r : MachineRegister} {w : MaskedWrite} : r ≠ .addr → s.changes (.machine sm r) w
  queue (value : Word) : s.writes (.txf sm) .plain value

structure Serves (s : Scope) (sm : StateMachine) : Prop extends s.Drives sm where
  strobes : s.Strobes sm.single
  flags : s.writes .fdebug .plain (Control.debugFlags sm)

def Admits (s : Scope) : Subject → Prop
  | .machine number => ∀ sm : StateMachine, sm.val = number → s.Serves sm
  | .machines mask => ∀ machines, MachineSet.ofNat? mask = some machines → s.Strobes machines
  | .program _ | .memory | .nothing => True

/-- What the subject stands for is within the scope, but for strobes. -/
def AdmitsDriving (s : Scope) : Subject → Prop
  | .machine number => ∀ sm : StateMachine, sm.val = number → s.Drives sm
  | .machines _ | .program _ | .memory | .nothing => True

theorem Admits.driving {s : Scope} {subject : Subject} (admits : s.Admits subject) :
    s.AdmitsDriving subject := by
  cases subject with
  | machine number => exact fun sm here => (admits sm here).toDrives
  | machines mask | program p | memory | nothing => trivial

theorem admits_outsideCode (subject : Subject) : outsideCode.Admits subject := by
  cases subject with
  | machine number => exact fun sm _ => ⟨⟨nofun, nofun, nofun⟩, ⟨nofun, nofun, nofun, nofun⟩, nofun⟩
  | machines mask => exact fun machines _ => ⟨nofun, nofun, nofun, nofun⟩
  | program p | memory | nothing => trivial

end Scope

namespace Control

variable {s : Scope} {sm : StateMachine}

theorem within_configure_of_drives (drives : s.Drives sm) (c : Config) :
    Within s (configure sm c) := by
  refine within_configure ?_
  simp only [configWords, List.forall_mem_cons]
  exact ⟨drives.writes (by decide), drives.writes (by decide), drives.writes (by decide),
    drives.writes (by decide), fun _ none => absurd none List.not_mem_nil⟩

theorem within_draw_of_drives (reads : s.reads (.machine sm .pinctrl)) (drives : s.Drives sm)
    (strokes : List Stroke) : Within s (draw sm strokes) :=
  within_draw reads (fun _ => drives.writes (by decide)) fun _ _ => drives.writes (by decide)

theorem within_initialise_of_serves (serves : s.Serves sm) (pc : Slot) (c : Config) :
    Within s (initialise sm pc c) := by
  refine .bind (.access (serves.strobes.enable false)) fun _ => ?_
  refine .bind (within_configure_of_drives serves.toDrives c) fun _ => ?_
  refine .bind (Within.rules.clearQueues sm (serves.writes (by decide))) fun _ => ?_
  refine .bind (.access serves.flags) fun _ => ?_
  refine .bind (.access serves.strobes.restart) fun _ => ?_
  refine .bind (.access serves.strobes.restartDividers) fun _ => ?_
  exact .access (serves.writes (by decide))

end Control

namespace Operation

open Control

/-- The subject of an operation. Taking a word from a queue and asking for a status change no
register. -/
def subject : Operation → Subject
  | .configure sm _ | .initialise sm _ _ | .setEnabled sm _ | .restart sm | .restartDivider sm
  | .execute sm _ | .executeBlocking sm _ | .put sm _ | .putBlocking sm _ | .drain sm
  | .clearQueues sm | .setPins sm _ | .setPinsMasked sm _ _ | .setPindirsMasked sm _ _
  | .setConsecutivePindirs sm _ _ _ | .adjustWrap sm _ _ | .adjustOutPins sm _ _
  | .adjustSetPins sm _ _ | .adjustInPins sm _ | .adjustSidesetPins sm _
  | .adjustClkdiv sm _ _ => .machine sm
  | .setMaskEnabled mask _ | .restartMask mask | .restartDividersMask mask
  | .enableMaskInSync mask => .machines mask
  | .load p _ | .loadInto _ p _ => .program p
  | .clear | .clearIn _ => .memory
  | .isStalled _ | .programCounter _ | .take _ | .isTxFull _ | .isTxEmpty _ | .isRxFull _
  | .isRxEmpty _ | .txLevel _ | .rxLevel _ | .takeBlocking _ | .claim _ | .claimMask _ | .unclaim _
  | .claimUnused _ | .isClaimed _ | .canLoadAnywhere _ | .canLoad _ _ | .unload _ _
  | .allocate _ _ => .nothing

variable {s : Scope} {α : Type}

theorem within_refuse_bind {β : Type} (e : PioError) (next : β → Control α) :
    Within s (refuse e >>= next) := by
  intro h h' same
  rw [start_bind]
  exact same

theorem within_machine_bind {number : Nat} {next : StateMachine → Control α}
    (rest : ∀ sm : StateMachine, sm.val = number → Within s (next sm)) :
    Within s (machine number >>= next) := by
  by_cases small : number < 4
  · rw [machine_val ⟨number, small⟩, pure_bind]
    exact rest _ rfl
  · rw [machine_of_not_lt small]
    exact within_refuse_bind _ next

theorem within_machines_bind {mask : Nat} {next : MachineSet → Control α}
    (rest : ∀ machines, MachineSet.ofNat? mask = some machines → Within s (next machines)) :
    Within s (machines mask >>= next) := by
  unfold machines
  cases found : MachineSet.ofNat? mask with
  | none => exact within_refuse_bind _ next
  | some machines =>
    rw [pure_bind]
    exact rest machines found

def strobes : Operation → Bool
  | .initialise .. | .setEnabled .. | .setMaskEnabled .. | .restartMask _ | .restartDividersMask _
  | .enableMaskInSync _ | .restart _ | .restartDivider _ => true
  | _ => false

theorem within_driving (op : Operation) (polls : Nat) (still : op.movesPrograms = false)
    (calm : op.strobes = false) (reads : ∀ {r}, (∀ slot, r ≠ PioRegister.instrMem slot) → s.reads r)
    (admits : s.AdmitsDriving op.subject) : Within s (op.perform polls) := by
  have rules : Rules s.Allows (Within s) := Within.rules
  have checks : Checks (Within s) := Within.checks
  cases op with
  | configure sm c =>
    exact within_machine_bind fun sm here =>
      within_acting (within_configure_of_drives (admits sm here) c)
  | execute sm i =>
    exact within_machine_bind fun sm here =>
      within_acting (.access ((admits sm here).writes (by decide)))
  | executeBlocking sm i =>
    exact within_machine_bind fun sm here => within_acting
      (rules.executeBlocking polls sm i ((admits sm here).writes (by decide)) (reads (by nofun)))
  | put sm data =>
    exact within_machine_bind fun sm here => within_acting (.access ((admits sm here).queue data))
  | putBlocking sm data =>
    exact within_machine_bind fun sm here => within_acting
      (rules.putBlocking polls sm data (reads (by nofun)) ((admits sm here).queue data))
  | drain sm =>
    exact within_machine_bind fun sm here => within_acting
      (rules.drain polls sm (reads (by nofun)) (reads (by nofun))
        fun _ => (admits sm here).writes (by decide))
  | clearQueues sm =>
    exact within_machine_bind fun sm here =>
      within_acting (rules.clearQueues sm ((admits sm here).writes (by decide)))
  | setPins sm values | setPinsMasked sm values mask | setPindirsMasked sm values mask =>
    exact within_machine_bind fun sm here =>
      within_acting (within_draw_of_drives (reads (by nofun)) (admits sm here) _)
  | setConsecutivePindirs sm base count isOut =>
    refine within_machine_bind fun sm here => .bind (checks.below32 _ base) fun _ => ?_
    split
    · exact .refuse _
    · exact within_acting (within_draw_of_drives (reads (by nofun)) (admits sm here) _)
  | adjustWrap sm target wrap | adjustOutPins sm base count | adjustSetPins sm base count
  | adjustClkdiv sm int frac =>
    exact within_machine_bind fun sm here =>
      within_acting (within_scratch fun _ => (admits sm here).changes (by decide))
  | adjustInPins sm base | adjustSidesetPins sm base =>
    exact within_machine_bind fun sm here => .bind (checks.below32 _ base) fun _ =>
      within_acting (.access ((admits sm here).changes (by decide)))
  | isStalled sm | programCounter sm | isTxFull sm | isTxEmpty sm | isRxFull sm | isRxEmpty sm
  | txLevel sm | rxLevel sm =>
    exact .bind (checks.machine sm) fun _ =>
      rules.returning _ (rules.reading _ (reads (by nofun)))
  | take sm =>
    exact .bind (checks.machine sm) fun _ =>
      rules.returning _ (.access (reads (by nofun)))
  | takeBlocking sm =>
    exact .bind (checks.machine sm) fun sm => rules.returning _
      (rules.takeBlocking polls sm (reads (by nofun)) (reads (by nofun)))
  | claim sm => exact .bind (checks.machine sm) fun _ => within_acting (within_claim _)
  | claimMask mask => exact .bind (checks.machines mask) fun _ => within_acting (within_claim _)
  | unclaim sm => exact .bind (checks.machine sm) fun _ => within_acting (within_unclaim _)
  | claimUnused required => exact .bind (within_claimUnused required) fun _ => .pure _
  | isClaimed sm =>
    exact .bind (checks.machine sm) fun _ => .bind (within_isClaimed _) fun _ => .pure _
  | canLoadAnywhere p => exact .bind (within_canLoadAnywhere p) fun _ => .pure _
  | canLoad p offset => exact .bind (within_canLoad p offset) fun _ => .pure _
  | allocate r checkOnly =>
    cases checkOnly with
    | false => cases still
    | true => exact .bind (within_allocate_checkOnly r) fun _ => .pure _
  | load p offset | unload p offset | clear | loadInto base p offset | clearIn base => cases still
  | initialise sm pc c | setEnabled sm on | setMaskEnabled mask on | restartMask mask
  | restartDividersMask mask | enableMaskInSync mask | restart sm | restartDivider sm => cases calm

/-- An operation that moves no program stays within what admits its subject, if only the registers
other than the instruction slots may be read. -/
theorem within_subject (op : Operation) (polls : Nat) (still : op.movesPrograms = false)
    (reads : ∀ {r}, (∀ slot, r ≠ PioRegister.instrMem slot) → s.reads r)
    (admits : s.Admits op.subject) : Within s (op.perform polls) := by
  by_cases calm : op.strobes = false
  · exact op.within_driving polls still calm reads admits.driving
  · cases op with
    | initialise sm pc c =>
      exact within_machine_bind fun sm here => .bind (Within.checks.below32 _ pc) fun pc =>
        within_acting (within_initialise_of_serves (admits sm here) pc _)
    | setEnabled sm on =>
      exact within_machine_bind fun sm here =>
        within_acting (.access ((admits sm here).strobes.enable on))
    | restart sm =>
      exact within_machine_bind fun sm here =>
        within_acting (.access (admits sm here).strobes.restart)
    | restartDivider sm =>
      exact within_machine_bind fun sm here =>
        within_acting (.access (admits sm here).strobes.restartDividers)
    | setMaskEnabled mask on =>
      exact within_machines_bind fun m found =>
        within_acting (.access ((admits m found).enable on))
    | restartMask mask =>
      exact within_machines_bind fun m found =>
        within_acting (.access (admits m found).restart)
    | restartDividersMask mask =>
      exact within_machines_bind fun m found =>
        within_acting (.access (admits m found).restartDividers)
    | enableMaskInSync mask =>
      exact within_machines_bind fun m found =>
        within_acting (.access (admits m found).enableInSync)
    | _ => exact absurd rfl calm

theorem within_perform (op : Operation) (polls : Nat) (h : op.movesPrograms = false) :
    Within Scope.outsideCode (op.perform polls) :=
  op.within_subject polls h (fun apart => apart) (Scope.admits_outsideCode op.subject)

end Operation

end PioBlock
