import PioBlock.Proofs.Hosting

/-! A dispatch over plain register files is a flat memory. An address selects at most one register,
the one of the first block that reaches it; reading, writing, asking for it and asking for its label
all go to that register, and a write changes no other. What an address selects depends on where the
blocks lie and on how long they are, and no write changes that. -/

namespace PioBlock

open RegisterBlock

namespace RegisterFile

variable {f : RegisterFile} {index : Nat} {r : Register}

theorem read_of_getElem? (h : f.registers[index]? = some r) : f.read index = .ok r.value := by
  rw [read, value?, h]
  rfl

theorem write_of_getElem? (h : f.registers[index]? = some r) (w : MaskedWrite) :
    f.write index w = f.store index (r.kind.store w r.value) := by
  rw [write, store, update, update, h]
  rfl

theorem store_of_getElem? (h : f.registers[index]? = some r) (value : Word) :
    f.store index value =
      .ok { f with registers := f.registers.set index { r with value := value } } := by
  rw [store, update, h]

end RegisterFile

def RegisterKind.afterWrite (kind : RegisterKind) (w : MaskedWrite) (old : Word) : Word :=
  match kind with
  | .readWrite | .writeOnly =>
    (old &&& ~~~w.mask) ||| ((if w.toggle then old ^^^ w.bits else w.bits) &&& w.mask)
  | .readOnly => old
  | .writeOneToClear => old &&& ~~~(w.bits &&& w.mask)

theorem RegisterKind.store_eq_afterWrite (kind : RegisterKind) (w : MaskedWrite) (old : Word) :
    kind.store w old = kind.afterWrite w old := by
  cases kind with
  | writeOneToClear => exact RegisterKind.store_writeOneToClear w old
  | _ => rfl

namespace Alias

/-- What a whole word written through the alias leaves in a register that takes every bit. -/
def result (a : Alias) (value old : Word) : Word :=
  match a with
  | .plain => value
  | .toggle => old ^^^ value
  | .set => old ||| value
  | .clear => old &&& ~~~value

theorem apply_write (a : Alias) (value old : Word) :
    (a.write value).apply old = a.result value old := by
  cases a with
  | plain => exact apply_write_plain value old
  | toggle => exact apply_write_toggle value old
  | set => exact apply_write_set value old
  | clear => exact apply_write_clear value old

end Alias

namespace Dispatch

variable {d : Dispatch RegisterFile} {address : Word} {position index : Nat} {r : Register}

def register? (d : Dispatch RegisterFile) (position index : Nat) : Option Register :=
  (d.block? position).bind (·.registers[index]?)

theorem register?_eq_some : d.register? position index = some r ↔
    ∃ f, d.block? position = some f ∧ f.registers[index]? = some r :=
  Option.bind_eq_some_iff

theorem storeAt_of_register? (h : d.register? position index = some r) (value : Word) :
    ∃ f, d.block? position = some f ∧ f.registers[index]? = some r ∧
      d.storeAt position index value =
        d.replace position { f with registers := f.registers.set index { r with value := value } } := by
  obtain ⟨f, at_position, at_index⟩ := register?_eq_some.mp h
  have stored : (file f).store index value = .ok _ := RegisterFile.store_of_getElem? at_index value
  refine ⟨f, at_position, at_index, ?_⟩
  simp only [storeAt, at_position, stored]
  rfl

theorem register?_storeAt (h : d.register? position index = some r) (value : Word) :
    (d.storeAt position index value).register? position index =
      some { r with value := value } := by
  obtain ⟨f, at_position, at_index, stored⟩ := storeAt_of_register? h value
  have here := (List.getElem?_eq_some_iff.mp at_position).1
  have there := (List.getElem?_eq_some_iff.mp at_index).1
  rw [stored]
  simp [register?, block?, replace, here, there]

theorem register?_storeAt_of_ne (h : d.register? position index = some r) (value : Word)
    {q j : Nat} (ne : (q, j) ≠ (position, index)) :
    (d.storeAt position index value).register? q j = d.register? q j := by
  obtain ⟨f, at_position, at_index, stored⟩ := storeAt_of_register? h value
  have here := (List.getElem?_eq_some_iff.mp at_position).1
  rw [stored]
  by_cases same : q = position
  · subst same
    have apart : index ≠ j := fun e => ne (by rw [e])
    rw [register?, register?, at_position]
    simp [block?, replace, here, List.getElem?_set_ne apart]
  · simp [register?, block?, replace, List.getElem?_set_ne (Ne.symm same)]

def extents (d : Dispatch RegisterFile) : List (Word × Nat) :=
  d.blocks.map fun f => (f.base, f.size)

theorem extents_eq_some {base : Word} {size : Nat} : d.extents[position]? = some (base, size) ↔
    ∃ f, d.block? position = some f ∧ f.base = base ∧ f.size = size := by
  simp [extents, block?]

theorem extents_storeAt (h : d.register? position index = some r) (value : Word) :
    (d.storeAt position index value).extents = d.extents := by
  obtain ⟨f, at_position, -, stored⟩ := storeAt_of_register? h value
  obtain ⟨here, rfl⟩ := List.getElem?_eq_some_iff.mp at_position
  rw [stored, extents, replace, List.map_set]
  apply List.ext_getElem?
  intro q
  by_cases same : position = q
  · subst same
    simp [extents, RegisterFile.size, here]
  · simp [extents, List.getElem?_set_ne same]

/-- The address is that of a word, and the block at a position is the first one that it falls
into, at the register with this index. -/
structure Selects (d : Dispatch RegisterFile) (address : Word) (position index : Nat) : Prop where
  aligned : address &&& 3 = 0
  reaches : ∃ base size, d.extents[position]? = some (base, size) ∧
    select base address = index ∧ index < size
  first : ∀ earlier < position, ∀ base size, d.extents[earlier]? = some (base, size) →
    size ≤ select base address

theorem Selects.congr {d' : Dispatch RegisterFile} (same : d'.extents = d.extents) :
    d'.Selects address position index ↔ d.Selects address position index := by
  constructor
  · rintro ⟨aligned, reaches, first⟩
    rw [same] at reaches first
    exact ⟨aligned, reaches, first⟩
  · rintro ⟨aligned, reaches, first⟩
    rw [← same] at reaches first
    exact ⟨aligned, reaches, first⟩

theorem Selects.unique (selects : d.Selects address position index) {q j : Nat}
    (other : d.Selects address q j) : q = position ∧ j = index := by
  obtain ⟨-, ⟨base, size, at_position, selected, inside⟩, first⟩ := selects
  obtain ⟨-, ⟨base', size', at_q, selected', inside'⟩, first'⟩ := other
  obtain lt | rfl | gt := Nat.lt_trichotomy q position
  · have passed := first q lt base' size' at_q
    omega
  · cases at_position.symm.trans at_q
    exact ⟨rfl, selected'.symm.trans selected⟩
  · have passed := first' position gt base size at_position
    omega

theorem Selects.register (selects : d.Selects address position index) :
    ∃ r, d.register? position index = some r := by
  obtain ⟨base, size, extent, -, inside⟩ := selects.reaches
  obtain ⟨f, at_position, -, rfl⟩ := extents_eq_some.mp extent
  exact ⟨f.registers[index], register?_eq_some.mpr
    ⟨f, at_position, List.getElem?_eq_getElem inside⟩⟩

theorem locateFrom_cases (address : Word) (start : Nat) (blocks : List RegisterFile) :
    (locateFrom address start blocks = none ∧ ∀ f ∈ blocks, claims f address = false) ∨
    ∃ position f, locateFrom address start blocks =
        some ⟨start + position, f, select f.base address⟩ ∧
      blocks[position]? = some f ∧ claims f address = true ∧
      ∀ earlier ∈ blocks.take position, claims earlier address = false := by
  induction blocks generalizing start with
  | nil => exact Or.inl ⟨rfl, fun f member => nomatch member⟩
  | cons head rest ih =>
    cases claimed : claims head address with
    | true =>
      refine Or.inr ⟨0, head, ?_, rfl, claimed, fun earlier member => nomatch member⟩
      rw [locateFrom, claimed]
      rfl
    | false =>
      rw [locateFrom, claimed, if_neg (by decide)]
      obtain ⟨search, passed⟩ | ⟨position, f, search, at_position, taken, first⟩ := ih (start + 1)
      · exact Or.inl ⟨search, List.forall_mem_cons.mpr ⟨claimed, passed⟩⟩
      · refine Or.inr ⟨position + 1, f, ?_, at_position, taken,
          List.forall_mem_cons.mpr ⟨claimed, first⟩⟩
        rw [search]
        simp only [Nat.add_assoc, Nat.add_comm 1]

theorem Selects.locate (selects : d.Selects address position index) :
    ∃ f, d.block? position = some f ∧ d.locate address = .ok ⟨position, f, index⟩ := by
  obtain ⟨aligned, ⟨base, size, extent, selected, inside⟩, first⟩ := selects
  obtain ⟨f, at_position, rfl, rfl⟩ := extents_eq_some.mp extent
  have claimed : claims f address = true := by
    rw [claims]
    exact decide_eq_true (selected ▸ inside)
  have passed : ∀ earlier ∈ d.blocks.take position, claims earlier address = false := by
    intro g member
    obtain ⟨q, lt, rfl⟩ := List.mem_take_iff_getElem.mp member
    have at_q : d.block? q = some d.blocks[q] := List.getElem?_eq_getElem (by omega)
    have bound := first q (by omega) _ _ (extents_eq_some.mpr ⟨_, at_q, rfl, rfl⟩)
    exact decide_eq_false (Nat.not_lt.mpr bound)
  refine ⟨f, at_position, ?_⟩
  rw [Dispatch.locate, if_pos aligned, locateFrom_eq_some 0 at_position claimed passed, Nat.zero_add]
  change Except.ok (Located.mk position f (select f.base address)) = _
  rw [selected]

def missing (address : Word) : RegisterError :=
  if address &&& 3 = 0 then .unmapped address else .unaligned address

/-- The address is not that of a word, or it falls into no block. -/
def Misses (d : Dispatch RegisterFile) (address : Word) : Prop :=
  address &&& 3 ≠ 0 ∨ ∀ extent ∈ d.extents, extent.2 ≤ select extent.1 address

theorem Misses.congr {d' : Dispatch RegisterFile} (same : d'.extents = d.extents) :
    d'.Misses address ↔ d.Misses address := by
  rw [Misses, Misses, same]

theorem selects_or_misses (d : Dispatch RegisterFile) (address : Word) :
    (∃ position index, d.Selects address position index) ∨ d.Misses address := by
  by_cases aligned : address &&& 3 = 0
  · obtain ⟨-, passed⟩ | ⟨position, f, -, at_position, claimed, first⟩ :=
      locateFrom_cases address 0 d.blocks
    · exact Or.inr (Or.inr (List.forall_mem_map.mpr fun f member =>
        Nat.not_lt.mp (of_decide_eq_false (passed f member))))
    · refine Or.inl ⟨position, select f.base address, aligned, ⟨f.base, f.size,
        extents_eq_some.mpr ⟨f, at_position, rfl, rfl⟩, rfl, of_decide_eq_true claimed⟩, ?_⟩
      intro earlier lt base size extent
      obtain ⟨g, at_earlier, rfl, rfl⟩ := extents_eq_some.mp extent
      obtain ⟨here, rfl⟩ := List.getElem?_eq_some_iff.mp at_earlier
      have passed := first _ (List.mem_take_iff_getElem.mpr ⟨earlier, by omega, rfl⟩)
      exact Nat.not_lt.mp (of_decide_eq_false passed)
  · exact Or.inr (Or.inl aligned)

theorem Misses.locate (misses : d.Misses address) :
    d.locate address = .error (missing address) := by
  by_cases aligned : address &&& 3 = 0
  · have unclaimed := misses.resolve_left (not_not_intro aligned)
    rw [Dispatch.locate, missing, if_pos aligned, if_pos aligned]
    obtain ⟨search, -⟩ | ⟨position, f, -, at_position, claimed, -⟩ :=
      locateFrom_cases address 0 d.blocks
    · rw [search]
    · have passed := unclaimed _ (List.mem_map_of_mem (List.mem_of_getElem? at_position))
      exact absurd (of_decide_eq_true claimed) (Nat.not_lt.mpr passed)
  · rw [Dispatch.locate, missing, if_neg aligned, if_neg aligned]

namespace Selects

theorem provides_eq (selects : d.Selects address position index) : d.provides address = true := by
  obtain ⟨f, -, located⟩ := selects.locate
  rw [provides, located]
  rfl

theorem label_eq (selects : d.Selects address position index)
    (h : d.register? position index = some r) : d.label address = .ok r.label := by
  obtain ⟨f, at_position, located⟩ := selects.locate
  obtain ⟨g, at_position', at_index⟩ := register?_eq_some.mp h
  cases at_position.symm.trans at_position'
  have info : info? f index = some r.toRegisterInfo := by
    change f.info? index = _
    rw [RegisterFile.info?, at_index]
    rfl
  rw [Dispatch.label, located]
  simp only [Except.map, RegisterBlock.label, info]

theorem read_eq (selects : d.Selects address position index)
    (h : d.register? position index = some r) :
    RegisterSpace.read address d = (.ok r.value, d) := by
  obtain ⟨f, at_position, located⟩ := selects.locate
  obtain ⟨g, at_position', at_index⟩ := register?_eq_some.mp h
  cases at_position.symm.trans at_position'
  obtain ⟨here, same⟩ := List.getElem?_eq_some_iff.mp at_position
  change Dispatch.read address d = _
  rw [Dispatch.read, located]
  change ((f.read index).mapError _, d.replace position f) = _
  rw [RegisterFile.read_of_getElem? at_index, replace, ← same, List.set_getElem_self]
  rfl

theorem write_eq (selects : d.Selects address position index)
    (h : d.register? position index = some r) (w : MaskedWrite) :
    RegisterSpace.write address w d =
      (.ok (), d.storeAt position index (r.kind.store w r.value)) := by
  obtain ⟨f, at_position, located⟩ := selects.locate
  obtain ⟨g, at_position', at_index, stored⟩ := storeAt_of_register? h (r.kind.store w r.value)
  cases at_position.symm.trans at_position'
  have written : f.write index w = .ok _ :=
    (RegisterFile.write_of_getElem? at_index w).trans
      (RegisterFile.store_of_getElem? at_index _)
  change Dispatch.write address w d = _
  rw [Dispatch.write, located, stored]
  simp only [RegisterBlock.write, written]
  rfl

end Selects

/-- Everything asked at the address is asked of one register, and a write changes no other: read
at any address afterwards, that register has the new word and every other the word it had. -/
structure Answers (d : Dispatch RegisterFile) (address : Word) (position index : Nat)
    (r : Register) : Prop where
  register : d.register? position index = some r
  provides : d.provides address = true
  label : d.label address = .ok r.label
  read : RegisterSpace.read address d = (.ok r.value, d)
  write : ∀ w, ∃ d', RegisterSpace.write address w d = (.ok (), d') ∧
    d'.register? position index = some { r with value := r.kind.afterWrite w r.value } ∧
    (∀ q j, (q, j) ≠ (position, index) → d'.register? q j = d.register? q j) ∧
    ∀ later,
      (d.Selects later position index →
        (RegisterSpace.read later d').1 = .ok (r.kind.afterWrite w r.value)) ∧
      (¬ d.Selects later position index →
        (RegisterSpace.read later d').1 = (RegisterSpace.read later d).1)

/-- Nothing answers at the address, and every access fails with an error that names it. -/
structure Denies (d : Dispatch RegisterFile) (address : Word) : Prop where
  provides : d.provides address = false
  label : d.label address = .error (missing address)
  read : RegisterSpace.read address d = (.error (missing address), d)
  write : ∀ w, RegisterSpace.write address w d = (.error (missing address), d)

theorem Misses.denies (misses : d.Misses address) : d.Denies address := by
  have located := misses.locate
  refine ⟨?_, ?_, ?_, fun w => ?_⟩
  · rw [Dispatch.provides, located]
    rfl
  · rw [Dispatch.label, located]
    rfl
  · change Dispatch.read address d = _
    rw [Dispatch.read, located]
  · change Dispatch.write address w d = _
    rw [Dispatch.write, located]

theorem read_storeAt (h : d.register? position index = some r) (value : Word) (later : Word) :
    (d.Selects later position index →
      (RegisterSpace.read later (d.storeAt position index value)).1 = .ok value) ∧
    (¬ d.Selects later position index →
      (RegisterSpace.read later (d.storeAt position index value)).1 =
        (RegisterSpace.read later d).1) := by
  have extents_eq := extents_storeAt h value
  constructor
  · intro selects
    rw [((Selects.congr extents_eq).mpr selects).read_eq (register?_storeAt h value)]
  · intro elsewhere
    obtain ⟨q, j, selects⟩ | misses := d.selects_or_misses later
    · obtain ⟨s, at_q⟩ := selects.register
      have ne : (q, j) ≠ (position, index) := by
        intro same
        cases same
        exact elsewhere selects
      have kept := (register?_storeAt_of_ne h value ne).trans at_q
      rw [((Selects.congr extents_eq).mpr selects).read_eq kept, selects.read_eq at_q]
    · rw [((Misses.congr extents_eq).mpr misses).denies.read, misses.denies.read]

theorem Selects.answers (selects : d.Selects address position index)
    (h : d.register? position index = some r) : d.Answers address position index r := by
  refine ⟨h, selects.provides_eq, selects.label_eq h, selects.read_eq h, fun w => ?_⟩
  rw [← RegisterKind.store_eq_afterWrite]
  exact ⟨_, selects.write_eq h w, register?_storeAt h _,
    fun q j ne => register?_storeAt_of_ne h _ ne, fun later => read_storeAt h _ later⟩

theorem selects_of_window {f : RegisterFile} (at_position : d.block? position = some f)
    (small : f.size ≤ 1024) (window : Layout.IsWindow f.base)
    (alone : ∀ address : Word, address &&& 3 = 0 → f.base.toNat ≤ address.toNat →
      address.toNat < f.base.toNat + 0x4000 → ∀ earlier < position, ∀ g,
        d.block? earlier = some g → claims g address = false)
    (inside : index < f.size) (a : Alias) :
    d.Selects (Layout.address f.base index + a.bits) position index := by
  have bound : index < 1024 := Nat.lt_of_lt_of_le inside small
  rw [Layout.address_add_bits window bound]
  have aligned := Layout.address_and_three window bound a
  have range := Layout.toNat_address_or_bits window bound a
  refine ⟨aligned, ⟨f.base, f.size, extents_eq_some.mpr ⟨f, at_position, rfl, rfl⟩,
    Layout.select_address window bound a, inside⟩, ?_⟩
  intro earlier lt base size extent
  obtain ⟨g, at_earlier, rfl, rfl⟩ := extents_eq_some.mp extent
  have passed := alone _ aligned range.1 range.2 earlier lt g at_earlier
  exact Nat.not_lt.mp (of_decide_eq_false passed)

/-- Every address either leads to one register, which all accesses share, or to none. Where a block
of at most 1024 registers has the 16 KiB from its base on for itself, each of its registers answers
at four addresses, and a word written there replaces, toggles, sets or clears. -/
theorem flat_memory (d : Dispatch RegisterFile) :
    (∀ address,
      (∃ position index r, d.Selects address position index ∧
        d.Answers address position index r) ∨
      d.Misses address ∧ d.Denies address) ∧
    ∀ position f, d.block? position = some f → f.size ≤ 1024 → 0x4000 ∣ f.base.toNat →
      (∀ address : Word, address &&& 3 = 0 → f.base.toNat ≤ address.toNat →
        address.toNat < f.base.toNat + 0x4000 → ∀ earlier < position, ∀ g,
          d.block? earlier = some g → claims g address = false) →
      ∀ index < f.size, ∀ a : Alias,
        d.Selects (Layout.address f.base index + a.bits) position index ∧
        ∀ r, d.register? position index = some r → r.kind = .readWrite → ∀ value,
          ∃ d', RegisterSpace.write (Layout.address f.base index + a.bits)
              (.ofAddress (Layout.address f.base index + a.bits) value) d = (.ok (), d') ∧
            d'.register? position index = some { r with value := a.result value r.value } := by
  constructor
  · intro address
    obtain ⟨position, index, selects⟩ | misses := d.selects_or_misses address
    · obtain ⟨r, h⟩ := selects.register
      exact Or.inl ⟨position, index, r, selects, selects.answers h⟩
    · exact Or.inr ⟨misses, misses.denies⟩
  · intro position f at_position small multiple alone index inside a
    have window := Layout.isWindow_iff_dvd.mpr multiple
    have selects := selects_of_window at_position small window alone inside a
    refine ⟨selects, fun r h kind value => ?_⟩
    have named : Alias.ofAddress (Layout.address f.base index + a.bits) = a := by
      have bound : index < 1024 := Nat.lt_of_lt_of_le inside small
      rw [Layout.address_add_bits window bound, Layout.ofAddress_address window bound]
    refine ⟨_, selects.write_eq h _, ?_⟩
    rw [register?_storeAt h, kind, MaskedWrite.ofAddress, named, RegisterKind.store, Alias.apply_write]

def twoBlocks : Dispatch RegisterFile :=
  ⟨[RegisterFile.pioAt 0 0x50200000, RegisterFile.pioAt 1 0x50300000]⟩

theorem flat_memory_twoBlocks :
    twoBlocks.Selects (Layout.address 0x50300000 0 + Alias.set.bits) 1 0 ∧
    ∃ r, twoBlocks.register? 1 0 = some r ∧
      ∃ d', RegisterSpace.write (Layout.address 0x50300000 0 + Alias.set.bits)
          (.ofAddress (Layout.address 0x50300000 0 + Alias.set.bits) 5) twoBlocks = (.ok (), d') ∧
        d'.register? 1 0 = some { r with value := 5 } := by
  have apart : ∀ address : Word, address &&& 3 = 0 → (0x50300000#32).toNat ≤ address.toNat →
      address.toNat < (0x50300000#32).toNat + 0x4000 → ∀ earlier < 1, ∀ g,
        twoBlocks.block? earlier = some g → claims g address = false := by
    intro address _ low high earlier first g h
    obtain rfl : earlier = 0 := by omega
    cases h
    have past := Layout.le_select_of_ne (show Layout.IsWindow 0x50300000 by decide)
      (show Layout.IsWindow 0x50200000 by decide) (by decide) low high
    exact decide_eq_false (Nat.not_lt.mpr (Nat.le_trans (by decide) past))
  obtain ⟨selects, written⟩ := (flat_memory twoBlocks).2 1 (RegisterFile.pioAt 1 0x50300000) rfl
    (by decide) (by decide) apart 0 (by decide) .set
  exact ⟨selects, _, rfl, written _ rfl rfl 5⟩

end Dispatch

end PioBlock
