import PioBlock.Proofs.Footprint
import PioBlock.Bench
import Mathlib.Data.Fintype.Basic
import Mathlib.Data.Finset.SDiff

/-! Clients that share a handle. The handle keeps one mask and knows no clients; who holds which
state machine is only told by the answers that the clients got. As long as no client gives back
what it does not hold, these holdings are disjoint and the mask is their union. A call works on
the mask in one critical section, so calls from many threads come one after the other, in any
order. -/

namespace PioBlock

def numbered (n : Nat) : Finset StateMachine := Finset.univ.filter (·.val = n)

def inMask (mask : Nat) : Finset StateMachine := Finset.univ.filter (mask.testBit ·.val)

@[simp] theorem mem_numbered {n : Nat} {sm : StateMachine} : sm ∈ numbered n ↔ sm.val = n := by
  simp [numbered]

@[simp] theorem mem_inMask {mask : Nat} {sm : StateMachine} :
    sm ∈ inMask mask ↔ mask.testBit sm.val = true := by
  simp [inMask]

theorem numbered_val (sm : StateMachine) : numbered sm.val = {sm} := by
  ext other
  simp [Fin.ext_iff]

inductive ClaimCall where
  | claim (sm : Nat)
  | claimMask (mask : Nat)
  | claimUnused (required : Bool)
  | unclaim (sm : Nat)
deriving DecidableEq, Repr

namespace ClaimCall

def operation : ClaimCall → Operation
  | claim sm => .claim sm
  | claimMask mask => .claimMask mask
  | claimUnused required => .claimUnused required
  | unclaim sm => .unclaim sm

/-- What a client holds once the call was answered, when it held `own` before. -/
def settle (own : Finset StateMachine) : ClaimCall → Except Failure Answer → Finset StateMachine
  | claim sm, .ok _ => own ∪ numbered sm
  | claimMask mask, .ok _ => own ∪ inMask mask
  | claimUnused _, .ok (.maybe (some sm)) => own ∪ numbered sm
  | unclaim sm, .ok _ => own \ numbered sm
  | _, _ => own

theorem settle_error (own : Finset StateMachine) (c : ClaimCall) (f : Failure) :
    c.settle own (.error f) = own := by
  cases c <;> rfl

end ClaimCall

/-- A handle in use by the clients `κ`, and what each of them holds. -/
structure Sharing (κ σ : Type) where
  handle : Handle
  space : σ
  holds : κ → Finset StateMachine

namespace Sharing

open Control

variable {κ σ : Type} {t : Sharing κ σ}

def Held (t : Sharing κ σ) (sm : StateMachine) : Prop := ∃ client, sm ∈ t.holds client

/-- A client gives back only what it holds. -/
def Permits (t : Sharing κ σ) (client : κ) : ClaimCall → Prop
  | .unclaim n => numbered n ⊆ t.holds client
  | _ => True

/-- The mask is the union of the holdings, and no two of these meet. -/
structure Accounted (t : Sharing κ σ) : Prop where
  held : ∀ sm, t.handle.claimed.has sm = true ↔ t.Held sm
  exclusive : ∀ a b sm, sm ∈ t.holds a → sm ∈ t.holds b → a = b

def fresh (h : Handle) (space : σ) : Sharing κ σ := ⟨h, space, fun _ => ∅⟩

theorem accounted_fresh (index : Nat) (base : Word) (space : σ) :
    (fresh (Handle.at_ index base) space : Sharing κ σ).Accounted where
  held sm := by simp [fresh, Held, Handle.at_, MachineSet.has]
  exclusive a b sm h := by simp [fresh] at h

variable [DecidableEq κ]

theorem mem_update_union {holds : κ → Finset StateMachine} {client owner : κ}
    {more : Finset StateMachine} {sm : StateMachine} :
    sm ∈ Function.update holds client (holds client ∪ more) owner ↔
      sm ∈ holds owner ∨ client = owner ∧ sm ∈ more := by
  by_cases self : client = owner
  · subst self
    simp
  · rw [Function.update_of_ne (Ne.symm self)]
    simp [self]

theorem mem_update_sdiff {holds : κ → Finset StateMachine} {client owner : κ}
    {back : Finset StateMachine} {sm : StateMachine} :
    sm ∈ Function.update holds client (holds client \ back) owner ↔
      sm ∈ holds owner ∧ (client = owner → sm ∉ back) := by
  by_cases self : client = owner
  · subst self
    simp
  · rw [Function.update_of_ne (Ne.symm self)]
    simp [self]

namespace Accounted

theorem take (acc : t.Accounted) (client : κ) {machines : MachineSet}
    {wanted : Finset StateMachine} (same : ∀ sm, machines.has sm = true ↔ sm ∈ wanted)
    (free : ∀ sm ∈ wanted, ¬ t.Held sm) :
    Accounted ⟨{ t.handle with claimed := t.handle.claimed ||| machines }, t.space,
      Function.update t.holds client (t.holds client ∪ wanted)⟩ where
  held sm := by
    have union : MachineSet.has (t.handle.claimed ||| machines) sm = true ↔
        t.Held sm ∨ sm ∈ wanted := by
      rw [← acc.held, ← same, MachineSet.has, BitVec.getLsbD_or, Bool.or_eq_true]
      rfl
    simp only [union, Held, mem_update_union, exists_or, exists_eq_left']
  exclusive a b sm ha hb := by
    rw [mem_update_union] at ha hb
    rcases ha with ha | ⟨rfl, ha⟩ <;> rcases hb with hb | ⟨rfl, hb⟩
    · exact acc.exclusive a b sm ha hb
    · exact absurd ⟨a, ha⟩ (free sm hb)
    · exact absurd ⟨b, hb⟩ (free sm ha)
    · rfl

theorem giveBack (acc : t.Accounted) {client : κ} {sm : StateMachine}
    (own : sm ∈ t.holds client) :
    Accounted ⟨{ t.handle with claimed := t.handle.claimed &&& ~~~sm.single }, t.space,
      Function.update t.holds client (t.holds client \ {sm})⟩ where
  held other := by
    have rest : MachineSet.has (t.handle.claimed &&& ~~~sm.single) other = true ↔
        t.Held other ∧ sm ≠ other := by
      rw [← acc.held, MachineSet.has, BitVec.getLsbD_and, BitVec.getLsbD_not,
        StateMachine.getLsbD_single, Bool.and_eq_true]
      simp [MachineSet.has, other.isLt]
    simp only [rest, Held, mem_update_sdiff, Finset.mem_singleton]
    constructor
    · rintro ⟨⟨owner, holds⟩, ne⟩
      exact ⟨owner, holds, fun _ same => ne same.symm⟩
    · rintro ⟨owner, holds, kept⟩
      refine ⟨⟨owner, holds⟩, ?_⟩
      rintro rfl
      exact kept (acc.exclusive client owner _ own holds) rfl
  exclusive a b other ha hb :=
    acc.exclusive a b other (mem_update_sdiff.mp ha).1 (mem_update_sdiff.mp hb).1

end Accounted

/-- Machines that were asked for are all taken when nobody holds one of them. Otherwise none is
taken, and the answer lists those that are held, in ascending order. -/
def Granted (t : Sharing κ σ) (client : κ) (wanted : Finset StateMachine)
    (ended : Except Failure Answer × Sharing κ σ) : Prop :=
  ((∀ sm ∈ wanted, ¬ t.Held sm) ∧ ended.1 = .ok .done ∧
    ended.2.holds = Function.update t.holds client (t.holds client ∪ wanted)) ∨
  ((∃ sm ∈ wanted, t.Held sm) ∧ ∃ conflicts : List Nat,
    ended = (.error (.error (.claimConflict conflicts)), t) ∧ conflicts.Pairwise (· < ·) ∧
    ∀ n, n ∈ conflicts ↔ ∃ sm ∈ wanted, t.Held sm ∧ sm.val = n)

def Answers (t : Sharing κ σ) (client : κ) (ended : Except Failure Answer × Sharing κ σ) :
    ClaimCall → Prop
  | .claim n =>
    if n < 4 then t.Granted client (numbered n) ended
    else ended = (.error (.error (.argument (.stateMachine n))), t)
  | .claimMask mask =>
    if mask < 16 then t.Granted client (inMask mask) ended
    else ended = (.error (.error (.argument (.machineSet mask))), t)
  | .claimUnused required =>
    (∃ sm, ¬ t.Held sm ∧ (∀ lower < sm, t.Held lower) ∧
      ended.1 = .ok (.maybe (some sm.val)) ∧
      ended.2.holds = Function.update t.holds client (t.holds client ∪ {sm})) ∨
    ((∀ sm, t.Held sm) ∧
      ended = (if required then .error (.error .noUnusedStateMachine) else .ok (.maybe none), t))
  | .unclaim n =>
    if n < 4 then ended.1 = .ok .done ∧
      ended.2.holds = Function.update t.holds client (t.holds client \ numbered n)
    else ended = (.error (.error (.argument (.stateMachine n))), t)

theorem Answers.unchanged {client : κ} {c : ClaimCall}
    {ended : Except Failure Answer × Sharing κ σ} {f : Failure}
    (answers : t.Answers client ended c) (failed : ended.1 = .error f) : ended.2 = t := by
  have granted : ∀ {wanted}, t.Granted client wanted ended → ended.2 = t := by
    rintro wanted (⟨-, done, -⟩ | ⟨-, conflicts, rfl, -⟩)
    · rw [done] at failed
      cases failed
    · rfl
  cases c with
  | claim n =>
    by_cases small : n < 4
    · exact granted ((if_pos small).mp answers)
    · rw [(if_neg small).mp answers]
  | claimMask mask =>
    by_cases small : mask < 16
    · exact granted ((if_pos small).mp answers)
    · rw [(if_neg small).mp answers]
  | claimUnused required =>
    obtain ⟨sm, -, -, done, -⟩ | ⟨-, rfl⟩ := answers
    · rw [done] at failed
      cases failed
    · rfl
  | unclaim n =>
    by_cases small : n < 4
    · rw [((if_pos small).mp answers).1] at failed
      cases failed
    · rw [(if_neg small).mp answers]

variable [RegisterSpace σ]

def call (polls : Nat) (t : Sharing κ σ) (client : κ) (c : ClaimCall) :
    Except Failure Answer × Sharing κ σ :=
  let r := ((c.operation.perform polls).start t.handle).run t.space
  (r.value.1, ⟨r.value.2, r.space,
    Function.update t.holds client (c.settle (t.holds client) r.value.1)⟩)

/-- Any number of permitted calls were made, by any clients in any order. -/
inductive Reachable (polls : Nat) : Sharing κ σ → Prop
  | fresh (index : Nat) (base : Word) (space : σ) :
    Reachable polls (fresh (Handle.at_ index base) space)
  | call {t : Sharing κ σ} (client : κ) (c : ClaimCall) (before : t.Reachable polls)
    (permitted : t.Permits client c) : Reachable polls (t.call polls client c).2

theorem call_of_done {polls : Nat} {client : κ} {c : ClaimCall} {outcome : Except Failure Answer}
    {h : Handle}
    (ends : (c.operation.perform polls).start t.handle = .done (outcome, h)) :
    t.call polls client c = (outcome, ⟨h, t.space,
      Function.update t.holds client (c.settle (t.holds client) outcome)⟩) := by
  rw [call, ends]
  rfl

theorem call_of_same {polls : Nat} {client : κ} {c : ClaimCall} {outcome : Except Failure Answer}
    (ends : (c.operation.perform polls).start t.handle = .done (outcome, t.handle))
    (settled : c.settle (t.holds client) outcome = t.holds client) :
    t.call polls client c = (outcome, t) := by
  rw [call_of_done ends, settled, Function.update_eq_self]

theorem call_of_refused {polls : Nat} {client : κ} {c : ClaimCall} {e : PioError}
    (ends : (c.operation.perform polls).start t.handle = .done (.error (.error e), t.handle)) :
    t.call polls client c = (.error (.error e), t) :=
  call_of_same ends (c.settle_error _ _)

theorem start_claim (machines : MachineSet) (h : Handle) :
    (Operation.acting (Control.claim machines)).start h =
      .done (match setBits (h.claimed &&& machines) with
        | [] => (.ok .done, { h with claimed := h.claimed ||| machines })
        | conflicts => (.error (.error (.claimConflict conflicts)), h)) := by
  rw [Operation.acting, Control.claim, start_bind, start_bind, start_get, Procedure.done_bind]
  dsimp only
  cases setBits (h.claimed &&& machines) <;> rfl

namespace Accounted

variable {polls : Nat} {client : κ} {c : ClaimCall}

theorem call_claim (acc : t.Accounted) (machines : MachineSet) {wanted : Finset StateMachine}
    (same : ∀ sm, machines.has sm = true ↔ sm ∈ wanted)
    (starts : (c.operation.perform polls).start t.handle =
      (Operation.acting (Control.claim machines)).start t.handle)
    (settles : c.settle (t.holds client) (.ok .done) = t.holds client ∪ wanted) :
    t.Granted client wanted (t.call polls client c) ∧ (t.call polls client c).2.Accounted := by
  rw [start_claim] at starts
  have conflict : ∀ n, n ∈ setBits (t.handle.claimed &&& machines) ↔
      ∃ sm ∈ wanted, t.Held sm ∧ sm.val = n := by
    intro n
    rw [mem_setBits]
    constructor
    · intro one
      have below := BitVec.lt_of_getLsbD one
      rw [BitVec.getLsbD_and, Bool.and_eq_true] at one
      exact ⟨⟨n, below⟩, (same _).mp one.2, (acc.held _).mp one.1, rfl⟩
    · rintro ⟨sm, want, held, rfl⟩
      rw [BitVec.getLsbD_and, Bool.and_eq_true]
      exact ⟨(acc.held sm).mpr held, (same sm).mpr want⟩
  have sorted := pairwise_setBits (t.handle.claimed &&& machines)
  cases found : setBits (t.handle.claimed &&& machines) with
  | nil =>
    rw [found] at starts conflict
    have free : ∀ sm ∈ wanted, ¬ t.Held sm := fun sm want held =>
      List.not_mem_nil ((conflict sm.val).mpr ⟨sm, want, held, rfl⟩)
    rw [call_of_done starts, settles]
    exact ⟨.inl ⟨free, rfl, rfl⟩, acc.take client same free⟩
  | cons first rest =>
    rw [found] at starts conflict sorted
    rw [call_of_refused starts]
    obtain ⟨sm, want, held, -⟩ := (conflict first).mp (List.mem_cons_self ..)
    exact ⟨.inr ⟨⟨sm, want, held⟩, _, rfl, sorted, conflict⟩, acc⟩

theorem call_claimUnused (acc : t.Accounted) (polls : Nat) (client : κ) (required : Bool) :
    t.Answers client (t.call polls client (.claimUnused required)) (.claimUnused required) ∧
      (t.call polls client (.claimUnused required)).2.Accounted := by
  cases found : MachineSet.lowestFree? t.handle.claimed with
  | some sm =>
    obtain ⟨free, lower⟩ := MachineSet.lowestFree?_eq_some.mp found
    have unheld : ¬ t.Held sm := by rwa [← acc.held, Bool.not_eq_true]
    have starts : ((Operation.claimUnused required).perform polls).start t.handle =
        .done (.ok (.maybe (some sm.val)),
          { t.handle with claimed := t.handle.claimed ||| sm.single }) := by
      rw [Operation.perform, Control.claimUnused, start_bind, start_bind, start_get,
        Procedure.done_bind]
      dsimp only
      rw [found]
      rfl
    rw [call_of_done starts, ClaimCall.settle, numbered_val]
    refine ⟨.inl ⟨sm, unheld, fun l below => (acc.held l).mp (lower l below), rfl, rfl⟩,
      acc.take client (fun other => ?_) fun other own => ?_⟩
    · rw [MachineSet.has_single, decide_eq_true_eq, Finset.mem_singleton, eq_comm]
    · rwa [Finset.mem_singleton.mp own]
  | none =>
    have all : ∀ sm, t.Held sm := by
      intro sm
      rw [← acc.held, MachineSet.lowestFree?_eq_none.mp found]
      revert sm
      decide
    have starts : ((Operation.claimUnused required).perform polls).start t.handle =
        .done (if required then .error (.error .noUnusedStateMachine) else .ok (.maybe none),
          t.handle) := by
      rw [Operation.perform, Control.claimUnused, start_bind, start_bind, start_get,
        Procedure.done_bind]
      dsimp only
      rw [found]
      cases required <;> rfl
    have settled : (ClaimCall.claimUnused required).settle (t.holds client)
        (if required then .error (.error .noUnusedStateMachine) else .ok (.maybe none)) =
          t.holds client := by
      cases required <;> rfl
    rw [call_of_same starts settled]
    exact ⟨.inr ⟨all, rfl⟩, acc⟩

/-- What a call answers, and that the mask stays the union of the holdings if it is permitted. -/
theorem step (acc : t.Accounted) (polls : Nat) (client : κ) (c : ClaimCall) :
    t.Answers client (t.call polls client c) c ∧
      (t.Permits client c → (t.call polls client c).2.Accounted) := by
  cases c with
  | claim n =>
    by_cases small : n < 4
    · obtain ⟨sm, rfl⟩ : ∃ sm : StateMachine, sm.val = n := ⟨⟨n, small⟩, rfl⟩
      have called : t.Granted client (numbered sm.val) (t.call polls client (.claim sm.val)) ∧
          (t.call polls client (.claim sm.val)).2.Accounted := by
        refine acc.call_claim sm.single (fun other => ?_) ?_ rfl
        · rw [MachineSet.has_single, decide_eq_true_eq, mem_numbered, Fin.ext_iff, eq_comm]
        · rw [ClaimCall.operation, Operation.perform, Operation.machine_val, pure_bind]
      exact ⟨(if_pos small).mpr called.1, fun _ => called.2⟩
    · rw [call_of_refused (e := .argument (.stateMachine n))]
      · exact ⟨(if_neg small).mpr rfl, fun _ => acc⟩
      · rw [ClaimCall.operation, Operation.perform, Operation.machine_of_not_lt small]
        rfl
  | claimMask mask =>
    by_cases small : mask < 16
    · have called : t.Granted client (inMask mask) (t.call polls client (.claimMask mask)) ∧
          (t.call polls client (.claimMask mask)).2.Accounted := by
        refine acc.call_claim (BitVec.ofNat 4 mask) (fun sm => ?_) ?_ rfl
        · rw [MachineSet.has_ofNat, mem_inMask]
        · rw [ClaimCall.operation, Operation.perform, Operation.machines_of_lt small, pure_bind]
      exact ⟨(if_pos small).mpr called.1, fun _ => called.2⟩
    · rw [call_of_refused (e := .argument (.machineSet mask))]
      · exact ⟨(if_neg small).mpr rfl, fun _ => acc⟩
      · rw [ClaimCall.operation, Operation.perform, Operation.machines_of_not_lt small]
        rfl
  | claimUnused required =>
    have called := acc.call_claimUnused polls client required
    exact ⟨called.1, fun _ => called.2⟩
  | unclaim n =>
    by_cases small : n < 4
    · obtain ⟨sm, rfl⟩ : ∃ sm : StateMachine, sm.val = n := ⟨⟨n, small⟩, rfl⟩
      have ends : ((ClaimCall.unclaim sm.val).operation.perform polls).start t.handle =
          .done (.ok .done,
            { t.handle with claimed := t.handle.claimed &&& ~~~sm.single }) := by
        rw [ClaimCall.operation, Operation.perform, Operation.machine_val, pure_bind]
        rfl
      rw [call_of_done ends]
      refine ⟨(if_pos small).mpr ⟨rfl, rfl⟩, fun permitted => ?_⟩
      rw [ClaimCall.settle, numbered_val]
      exact acc.giveBack (permitted (mem_numbered.mpr rfl))
    · rw [call_of_refused (e := .argument (.stateMachine n))]
      · exact ⟨(if_neg small).mpr rfl, fun _ => acc⟩
      · rw [ClaimCall.operation, Operation.perform, Operation.machine_of_not_lt small]
        rfl

end Accounted

theorem Reachable.accounted {polls : Nat} (reachable : t.Reachable polls) : t.Accounted := by
  induction reachable with
  | fresh index base space => exact accounted_fresh index base space
  | call client c _ permitted ih => exact (ih.step polls client c).2 permitted

/-- At all times no machine is held by two clients, and the ones of the mask are the machines that
are held. Every call that may come next answers by the holdings, and changes nothing if it fails. -/
theorem claims_are_exclusive {polls : Nat} (reachable : t.Reachable polls) :
    (∀ a b sm, sm ∈ t.holds a → sm ∈ t.holds b → a = b) ∧
    t.handle.claimed.toNat < 16 ∧
    (∀ n, t.handle.claimed.toNat.testBit n = true ↔
      ∃ client, ∃ sm ∈ t.holds client, sm.val = n) ∧
    ∀ client c, t.Answers client (t.call polls client c) c ∧
      ∀ f, (t.call polls client c).1 = .error f → (t.call polls client c).2 = t := by
  have acc := reachable.accounted
  refine ⟨acc.exclusive, t.handle.claimed.isLt, fun n => ?_, fun client c => ?_⟩
  · rw [BitVec.testBit_toNat]
    constructor
    · intro one
      obtain ⟨client, holds⟩ := (acc.held ⟨n, BitVec.lt_of_getLsbD one⟩).mp one
      exact ⟨client, _, holds, rfl⟩
    · rintro ⟨client, sm, holds, rfl⟩
      exact (acc.held sm).mpr ⟨client, holds⟩
  · have answers := (acc.step polls client c).1
    exact ⟨answers, fun f failed => answers.unchanged failed⟩

/-! Two clients; one claims machine 0, the other machine 2, and then the first asks for the
lowest three. -/

def sampleSharing : Sharing Bool (Dispatch RegisterFile) :=
  (((fresh (Handle.at_ 0 0x50200000) ⟨[RegisterFile.pioAt 0 0x50200000]⟩).call 1 true
    (.claim 0)).2.call 1 false (.claimMask 4)).2

theorem claims_are_exclusive_sampleSharing :
    sampleSharing.Reachable 1 ∧ sampleSharing.Held 0 ∧ sampleSharing.Held 2 ∧
      sampleSharing.Answers true (sampleSharing.call 1 true (.claimMask 7)) (.claimMask 7) ∧
      (sampleSharing.call 1 true (.claimMask 7)).1 = .error (.error (.claimConflict [0, 2])) ∧
      (sampleSharing.call 1 true (.claimMask 7)).2 = sampleSharing := by
  have reachable : sampleSharing.Reachable 1 :=
    .call false _ (.call true _ (.fresh ..) trivial) trivial
  have failed : (sampleSharing.call 1 true (.claimMask 7)).1 =
      .error (.error (.claimConflict [0, 2])) := by decide +kernel
  have next := (claims_are_exclusive reachable).2.2.2 true (.claimMask 7)
  exact ⟨reachable, ⟨true, by decide +kernel⟩, ⟨false, by decide +kernel⟩, next.1, failed,
    next.2 _ failed⟩

end Sharing

end PioBlock
