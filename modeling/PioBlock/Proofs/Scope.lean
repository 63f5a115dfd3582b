import PioBlock.Proofs.Footprint

/-! The registers that each operation reaches. A scope names the registers of a block that may be
read, the words that may be written to them and through which alias, and the masked changes. An
operation is within a scope when it makes no other access at the base of its handle and leaves
the handle as it was but for the claims. -/

namespace PioBlock

structure Scope where
  reads : PioRegister → Prop
  writes : PioRegister → Alias → Word → Prop
  changes : PioRegister → MaskedWrite → Prop

/-- The two handles differ at most in the state machines claimed. -/
def Handle.SameButClaims (h h' : Handle) : Prop := h' = { h with claimed := h'.claimed }

theorem Handle.SameButClaims.address_eq {h h' : Handle} (same : h.SameButClaims h')
    (r : PioRegister) : h'.address r = Layout.address h.base r.index := by
  rw [same]
  rfl

namespace Scope

def Reads (s : Scope) (base address : Word) : Prop :=
  ∃ r, s.reads r ∧ address = Layout.address base r.index

def Writes (s : Scope) (base address : Word) (change : MaskedWrite) : Prop :=
  (∃ r a value, s.writes r a value ∧ address = Layout.address base r.index ||| a.bits ∧
    change = .ofAddress address value) ∨
  ∃ r, s.changes r change ∧ address = Layout.address base r.index

def on (F : PioRegister → Prop) : Scope := ⟨F, fun r _ _ => F r, fun r _ => F r⟩

def outsideCode : Scope := on fun r => ∀ slot, r ≠ .instrMem slot

def Allows {α : Type} (s : Scope) (r : PioRegister) : RegisterAccess α → Prop
  | .read => s.reads r
  | .write value => s.writes r .plain value
  | .change w => s.changes r w
  | .writeThrough a value => s.writes r a value

theorem writes_plain {s : Scope} {r : PioRegister} {value base : Word}
    (allowed : s.writes r .plain value) :
    s.Writes base (Layout.address base r.index)
      (.ofAddress (Layout.address base r.index) value) := by
  refine Or.inl ⟨r, .plain, value, allowed, ?_, rfl⟩
  simp [Alias.bits]

end Scope

namespace Control

variable {α β : Type} {s : Scope}

/-- The operation stays within the scope. -/
def Within (s : Scope) (c : Control α) : Prop :=
  ∀ h : Handle, Respects h.SameButClaims (s.Reads h.base) (s.Writes h.base) c

namespace Within

theorem pure (a : α) : Within s (pure a : Control α) := fun _ => .pure a

theorem refuse (e : PioError) : Within s (Control.refuse e : Control α) := fun _ => .refuse e

theorem ofExcept {ε : Type} (wrap : ε → PioError) (outcome : Except ε α) :
    Within s (Control.ofExcept wrap outcome) := fun _ => .ofExcept wrap outcome

theorem bind {c : Control α} {next : α → Control β} (first : Within s c)
    (rest : ∀ a, Within s (next a)) : Within s (c >>= next) :=
  fun h => (first h).bind fun a => rest a h

theorem tryCatch {c : Control α} {next : Failure → Control α} (first : Within s c)
    (rest : ∀ e, Within s (next e)) : Within s (tryCatch c next) :=
  fun h => (first h).tryCatch fun e => rest e h

theorem access {r : PioRegister} {kind : RegisterAccess α} (allowed : s.Allows r kind) :
    Within s (Control.access r kind) := by
  refine fun h => .access fun h' same => ?_
  rw [same.address_eq]
  cases kind with
  | read => exact ⟨⟨r, allowed, rfl⟩, fun _ => trivial⟩
  | write value => exact ⟨Scope.writes_plain allowed, fun _ => trivial⟩
  | change w => exact ⟨Or.inr ⟨r, allowed, rfl⟩, fun _ => trivial⟩
  | writeThrough a value => exact ⟨Or.inl ⟨r, a, value, allowed, rfl, rfl⟩, fun _ => trivial⟩

theorem rules : Rules s.Allows (Within s) := ⟨pure, bind, fun _ => .throw _, access⟩

theorem checks : Checks (Within s) := ⟨pure, fun _ => refuse _⟩

theorem writeAll {items : List (PioRegister × Word)}
    (writes : ∀ item ∈ items, s.writes item.1 .plain item.2) :
    Within s (do
      let h ← get
      Control.transact (.writeAll (items.map fun item => (h.address item.1, item.2)))) := by
  refine fun h => .get_bind fun h' same => .transact (Transaction.respects_writeAll ?_)
  intro w made
  obtain ⟨item, listed, rfl⟩ := List.mem_map.mp made
  rw [same.address_eq]
  exact Scope.writes_plain (writes item listed)

end Within

theorem within_configure {sm : StateMachine} {c : Config}
    (writes : ∀ item ∈ configWords sm c, s.writes item.1 .plain item.2) :
    Within s (configure sm c) :=
  .writeAll writes

theorem within_draw {sm : StateMachine} {strokes : List Stroke}
    (reads : s.reads (.machine sm .pinctrl))
    (restores : ∀ saved, s.writes (.machine sm .pinctrl) .plain saved)
    (executes : ∀ stroke ∈ strokes,
      s.writes (.machine sm .instr) .plain (stroke.instruction.setWidth 32)) :
    Within s (draw sm strokes) := by
  refine fun h => .get_bind fun h' same => .transact ?_
  have drawn : ∀ w ∈ strokeWrites h' sm strokes,
      s.Writes h.base w.1 (.ofAddress w.1 w.2) := by
    intro w hw
    obtain ⟨stroke, member, hw⟩ := List.mem_flatMap.mp hw
    simp only [List.mem_cons, List.not_mem_nil, or_false] at hw
    obtain rfl | rfl := hw
    all_goals simp only [same.address_eq]
    · exact Scope.writes_plain (restores _)
    · exact Scope.writes_plain (executes stroke member)
  refine .bind ⟨⟨_, reads, same.address_eq _⟩, fun _ => trivial⟩ fun saved => ?_
  refine .bind (Transaction.respects_writeAll drawn).outcome fun outcome => ?_
  refine .bind (Transaction.Respects.outcome (Transaction.respects_write ?_)) fun restored => ?_
  · rw [same.address_eq]
    exact Scope.writes_plain (restores saved)
  · cases outcome <;> trivial

theorem within_scratch {sm : StateMachine} {r : MachineRegister} {setting : Setting}
    {bits : Config → Word} {mask : Word}
    (changes : ∀ c, s.changes (.machine sm r) ⟨bits c, mask, false⟩) :
    Within s (do
      let c ← scratch setting
      adjust sm r (bits c) mask) :=
  .bind (.ofExcept _ _) fun c => .access (changes c)

theorem within_claim (machines : MachineSet) : Within s (claim machines) := by
  refine fun h => .get_bind fun h' same => ?_
  split
  · refine .set ?_
    rw [Handle.SameButClaims] at same ⊢
    rw [same]
  · exact .refuse _

theorem within_unclaim (sm : StateMachine) : Within s (unclaim sm) := by
  refine fun h => .modify fun h' same => ?_
  rw [Handle.SameButClaims] at same ⊢
  rw [same]

theorem within_claimUnused (required : Bool) : Within s (claimUnused required) := by
  refine fun h => .get_bind fun h' same => ?_
  split
  · refine .bind (.set ?_) fun _ => .pure _
    rw [Handle.SameButClaims] at same ⊢
    rw [same]
  · split
    · exact .refuse _
    · exact .pure _

theorem within_isClaimed (sm : StateMachine) : Within s (isClaimed sm) :=
  fun _ => .get_bind fun _ _ => .pure _

theorem within_allocate_checkOnly (r : SlotRequest) : Within s (allocate r true) := by
  refine fun h => .get_bind fun h' same => ?_
  split
  · exact .pure _
  · exact .pure _

theorem within_canLoad (p : Program) (offset : Option Nat) : Within s (canLoad p offset) :=
  .bind (.ofExcept _ _) fun r => .bind (within_allocate_checkOnly r) fun _ => .pure _

theorem within_canLoadAnywhere (p : Program) : Within s (canLoadAnywhere p) :=
  .tryCatch (within_canLoad p none) fun _ => .pure _

end Control

namespace Operation

open Control

theorem within_acting {s : Scope} {c : Control Unit} (within : Within s c) :
    Within s (acting c) :=
  .bind within fun _ => .pure _

def movesPrograms : Operation → Bool
  | .load .. | .unload .. | .clear | .allocate _ false | .loadInto .. | .clearIn _ => true
  | _ => false

end Operation

end PioBlock
