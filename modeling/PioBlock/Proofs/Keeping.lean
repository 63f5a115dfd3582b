import PioBlock.Proofs.FlatHosting
import PioBlock.Proofs.Scope

/-! What accesses keep. However the bits of a register are touched, a read-only one keeps its word
and flags are at most cleared; the bits that are not touched stay as they are, and so do the
registers of other blocks. These facts hold of one write, are kept from state to state, and so hold
of every run of accesses within a scope. -/

namespace PioBlock

theorem map_set_eq_map {α β : Type} {l : List α} {k : Nat} {a b : α} {f : α → β}
    (at_k : l[k]? = some a) (same : f b = f a) : (l.set k b).map f = l.map f := by
  obtain ⟨inside, rfl⟩ := List.getElem?_eq_some_iff.mp at_k
  have there : k < (l.map f).length := by simpa using inside
  have image : f b = (l.map f)[k] := by rw [List.getElem_map, same]
  rw [List.map_set, image, List.set_getElem_self]

/-- The second register is what the first may become when only bits of `may` are touched. -/
structure Register.Keeps (may : Nat → Prop) (r r' : Register) : Prop where
  info_eq : r'.toRegisterInfo = r.toRegisterInfo
  bits : ∀ bit, ¬ may bit → r'.value.getLsbD bit = r.value.getLsbD bit
  readOnly : r.kind = .readOnly → r'.value = r.value
  cleared : r.kind = .writeOneToClear →
    ∀ bit, r'.value.getLsbD bit = true → r.value.getLsbD bit = true

namespace Register.Keeps

variable {may may' : Nat → Prop} {r r' r'' : Register}

theorem refl (may : Nat → Prop) (r : Register) : r.Keeps may r :=
  ⟨rfl, fun _ _ => rfl, fun _ => rfl, fun _ _ one => one⟩

theorem mono (keeps : r.Keeps may r') (wider : ∀ bit, may bit → may' bit) : r.Keeps may' r' :=
  ⟨keeps.info_eq, fun bit outside => keeps.bits bit fun inside => outside (wider bit inside),
    keeps.readOnly, keeps.cleared⟩

theorem trans (first : r.Keeps may r') (second : r'.Keeps may r'') : r.Keeps may r'' := by
  have kind : r'.kind = r.kind := congrArg RegisterInfo.kind first.info_eq
  refine ⟨second.info_eq.trans first.info_eq, fun bit outside => ?_, fun fixed => ?_,
    fun flags bit one => ?_⟩
  · rw [second.bits bit outside, first.bits bit outside]
  · rw [second.readOnly (kind.trans fixed), first.readOnly fixed]
  · exact first.cleared flags bit (second.cleared (kind.trans flags) bit one)

theorem eq (keeps : r.Keeps may r') (untouched : ∀ bit, ¬ may bit) : r' = r := by
  have value : r'.value = r.value :=
    BitVec.eq_of_getLsbD_eq fun bit _ => keeps.bits bit (untouched bit)
  have info := keeps.info_eq
  cases r
  cases r'
  cases info
  cases value
  rfl

theorem store (w : MaskedWrite)
    (outside : ∀ bit, ¬ may bit →
      (r.kind.store w r.value).getLsbD bit = r.value.getLsbD bit) :
    r.Keeps may { r with value := r.kind.store w r.value } := by
  refine ⟨rfl, outside, fun fixed => ?_, fun flags bit one => ?_⟩
  · rw [fixed, RegisterKind.store]
  · rw [flags, RegisterKind.store, BitVec.getLsbD_and, Bool.and_eq_true] at one
    exact one.1

end Register.Keeps

namespace Dispatch

variable {d d' d'' : Dispatch RegisterFile} {may may' : Nat → Nat → Nat → Prop}
  {position index : Nat} {r : Register}

theorem shape_storeAt (d : Dispatch RegisterFile) (position index : Nat) (value : Word) :
    (d.storeAt position index value).shape = d.shape := by
  unfold storeAt
  split
  · rfl
  · next f at_position =>
    split
    · next g stored =>
      have same := RegisterFile.sameBut_store stored
      exact map_set_eq_map at_position (Prod.ext same.base_eq same.infos_eq)
    · rfl

/-- The second dispatch is what the first may become when of each register only the bits of `may`
are touched. -/
structure Keeps (may : Nat → Nat → Nat → Prop) (d d' : Dispatch RegisterFile) : Prop where
  shape_eq : d'.shape = d.shape
  registers : ∀ q j r, d.register? q j = some r →
    ∃ r', d'.register? q j = some r' ∧ r.Keeps (may q j) r'

namespace Keeps

theorem refl (may : Nat → Nat → Nat → Prop) (d : Dispatch RegisterFile) : d.Keeps may d :=
  ⟨rfl, fun _ _ r h => ⟨r, h, .refl _ r⟩⟩

theorem mono (keeps : d.Keeps may d') (wider : ∀ q j bit, may q j bit → may' q j bit) :
    d.Keeps may' d' := by
  refine ⟨keeps.shape_eq, fun q j r h => ?_⟩
  obtain ⟨r', h', kept⟩ := keeps.registers q j r h
  exact ⟨r', h', kept.mono (wider q j)⟩

theorem trans (first : d.Keeps may d') (second : d'.Keeps may d'') : d.Keeps may d'' := by
  refine ⟨second.shape_eq.trans first.shape_eq, fun q j r h => ?_⟩
  obtain ⟨r', h', kept⟩ := first.registers q j r h
  obtain ⟨r'', h'', kept'⟩ := second.registers q j r' h'
  exact ⟨r'', h'', kept.trans kept'⟩

theorem storeAt (h : d.register? position index = some r) {value : Word}
    (keeps : r.Keeps (may position index) { r with value := value }) :
    d.Keeps may (d.storeAt position index value) := by
  refine ⟨shape_storeAt d position index value, fun q j s at_j => ?_⟩
  by_cases here : (q, j) = (position, index)
  · cases here
    cases h.symm.trans at_j
    exact ⟨_, register?_storeAt h value, keeps⟩
  · exact ⟨s, (register?_storeAt_of_ne h value here).trans at_j, .refl _ s⟩

end Keeps

theorem register?_info (d : Dispatch RegisterFile) (position index : Nat) :
    (d.register? position index).map (·.toRegisterInfo) =
      d.shape[position]?.bind (·.2[index]?) := by
  rw [register?, shape, List.getElem?_map, block?]
  cases d.blocks[position]? with
  | none => rfl
  | some f => simp [RegisterFile.infos]

theorem wordAt_eq_register? (d : Dispatch RegisterFile) (position : Nat) (r : PioRegister) :
    d.wordAt position r = (d.register? position r.index).map (·.value) := by
  rw [wordAt, file?, register?]
  cases d.block? position <;> rfl

def bitAt (d : Dispatch RegisterFile) (position : Nat) (r : PioRegister) (bit : Nat) : Option Bool :=
  (d.wordAt position r).map (·.getLsbD bit)

namespace Keeps

theorem register?_cases (keeps : d.Keeps may d') (position index : Nat) :
    (d.register? position index = none ∧ d'.register? position index = none) ∨
    ∃ r r', d.register? position index = some r ∧ d'.register? position index = some r' ∧
      r.Keeps (may position index) r' := by
  cases before : d.register? position index with
  | some r =>
    obtain ⟨r', after, kept⟩ := keeps.registers position index r before
    exact Or.inr ⟨r, r', rfl, after, kept⟩
  | none =>
    have info := d'.register?_info position index
    rw [keeps.shape_eq, ← register?_info, before, Option.map_none, Option.map_eq_none_iff] at info
    exact Or.inl ⟨rfl, info⟩

theorem register?_eq (keeps : d.Keeps may d') {position index : Nat}
    (untouched : ∀ bit, ¬ may position index bit) :
    d'.register? position index = d.register? position index := by
  obtain ⟨before, after⟩ | ⟨r, r', before, after, kept⟩ := keeps.register?_cases position index
  · rw [before, after]
  · rw [before, after, kept.eq untouched]

theorem bitAt_eq (keeps : d.Keeps may d') {position : Nat} {r : PioRegister} {bit : Nat}
    (untouched : ¬ may position r.index bit) : d'.bitAt position r bit = d.bitAt position r bit := by
  rw [bitAt, bitAt, wordAt_eq_register?, wordAt_eq_register?]
  obtain ⟨before, after⟩ | ⟨s, s', before, after, kept⟩ := keeps.register?_cases position r.index
  · rw [before, after]
  · rw [before, after]
    exact congrArg some (kept.bits bit untouched)

end Keeps

end Dispatch

/-- Any access that leaves the bits outside `may` alone, whatever the registers hold. -/
def Scope.under (may : PioRegister → Nat → Prop) : Scope where
  reads _ := True
  writes r a value := ∀ old bit, ¬ may r bit →
    (r.kind.store (a.write value) old).getLsbD bit = old.getLsbD bit
  changes r w := ∀ old bit, ¬ may r bit → (r.kind.store w old).getLsbD bit = old.getLsbD bit

def Dispatch.bitsAt (position : Nat) (may : PioRegister → Nat → Prop) (q j bit : Nat) : Prop :=
  q = position ∧ ∃ r : PioRegister, r.index = j ∧ may r bit

namespace Dispatch.Holds

variable {d : Dispatch RegisterFile} {position pio : Nat} {base : Word}
  {words : PioRegister → Word} {may : PioRegister → Nat → Prop}

theorem keeps_store (holds : d.Holds position pio base words) (r : PioRegister) (w : MaskedWrite)
    (outside : ∀ bit, ¬ may r bit →
      (r.kind.store w (words r)).getLsbD bit = (words r).getLsbD bit) :
    d.Keeps (bitsAt position may) (d.storeAt position r.index (r.kind.store w (words r))) :=
  .storeAt (holds.register?_eq r) <| .store w fun bit untouched =>
    outside bit fun inside => untouched ⟨rfl, r, rfl, inside⟩

theorem keeps_write (holds : d.Holds position pio base words) (window : Layout.IsWindow base)
    {address : Word} {w : MaskedWrite} (allowed : (Scope.under may).Writes base address w) :
    ∃ words', (RegisterSpace.write address w d).2.Holds position pio base words' ∧
      d.Keeps (bitsAt position may) (RegisterSpace.write address w d).2 := by
  have reached : ∃ (r : PioRegister) (a : Alias), address = Layout.address base r.index ||| a.bits ∧
      ∀ old bit, ¬ may r bit → (r.kind.store w old).getLsbD bit = old.getLsbD bit := by
    rcases allowed with ⟨r, a, value, outside, rfl, rfl⟩ | ⟨r, outside, rfl⟩
    · have named := Layout.ofAddress_address window (Nat.lt_trans r.index_lt (by decide)) a
      refine ⟨r, a, rfl, ?_⟩
      rw [MaskedWrite.ofAddress, named]
      exact outside
    · exact ⟨r, .plain, (Layout.or_bits_plain _).symm, outside⟩
  obtain ⟨r, a, rfl, outside⟩ := reached
  rw [holds.write_eq window r a w]
  exact ⟨_, holds.storeAt r _, holds.keeps_store r w (outside _)⟩

theorem keeps_run (holds : d.Holds position pio base words) (window : Layout.IsWindow base)
    {α : Type} {p : Procedure α} {Q : α → Prop}
    (meets : p.Meets ((Scope.under may).Reads base) ((Scope.under may).Writes base) Q) :
    d.Keeps (bitsAt position may) (p.run d).space := by
  -- From access to access the block stays in its place, and all changes so far are within `may`.
  have kept := meets.run_space
    (I := fun d' => (∃ words', d'.Holds position pio base words') ∧ d.Keeps (bitsAt position may) d')
    (s := d) (fun address d' reads ⟨⟨words', holds'⟩, kept⟩ => by
      obtain ⟨r, -, rfl⟩ := reads
      rw [holds'.read_eq window r]
      exact ⟨⟨words', holds'⟩, kept⟩)
    (fun address w d' writes ⟨⟨words', holds'⟩, kept⟩ => by
      obtain ⟨words'', holds'', step⟩ := holds'.keeps_write window writes
      exact ⟨⟨words'', holds''⟩, kept.trans step⟩)
    ⟨⟨words, holds⟩, .refl _ d⟩
  exact kept.2

end Dispatch.Holds

end PioBlock
