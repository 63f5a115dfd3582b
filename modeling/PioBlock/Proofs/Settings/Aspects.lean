import PioBlock.Proofs.ProgramConfig
import PioBlock.Proofs.Settings.ConfigFields
import PioBlock.Proofs.Settings.Truncation
import PioBlock.Setting

/-! A configuration has thirteen aspects. Each of them is some fields that one setter replaces and
one getter reads, and different aspects share no bit. A call of a setter is described by three
things apart from each other: what it is about, whether its arguments are in range, and what it puts
into the fields. Whether it is refused depends on its arguments alone. -/

namespace PioBlock

inductive Aspect where
  | clkdiv
  | wrap
  | jmpPin
  | movStatus
  | sideset
  | outSpecial
  | inShift
  | outShift
  | queueJoin
  | outPins
  | setPins
  | inPins
  | sidesetPins
deriving DecidableEq, Repr

namespace Aspect

def all : List Aspect :=
  [.clkdiv, .wrap, .jmpPin, .movStatus, .sideset, .outSpecial, .inShift, .outShift, .queueJoin,
    .outPins, .setPins, .inPins, .sidesetPins]

theorem mem_all (a : Aspect) : a ∈ all := by cases a <;> decide

def fields : Aspect → List ConfigField
  | .clkdiv => [⟨.clkdiv, Layout.clkdivInt⟩, ⟨.clkdiv, Layout.clkdivFrac⟩]
  | .wrap => [⟨.execctrl, Layout.wrapBottom⟩, ⟨.execctrl, Layout.wrapTop⟩]
  | .jmpPin => [⟨.execctrl, Layout.jmpPin⟩]
  | .movStatus => [⟨.execctrl, Layout.statusSel⟩, ⟨.execctrl, Layout.statusN⟩]
  | .sideset => [⟨.pinctrl, Layout.sidesetCount⟩, ⟨.execctrl, Layout.sideEnable⟩,
      ⟨.execctrl, Layout.sidePindir⟩]
  | .outSpecial => [⟨.execctrl, Layout.outSticky⟩, ⟨.execctrl, Layout.inlineOutEn⟩,
      ⟨.execctrl, Layout.outEnSel⟩]
  | .inShift => [⟨.shiftctrl, Layout.inShiftdir⟩, ⟨.shiftctrl, Layout.autopush⟩,
      ⟨.shiftctrl, Layout.pushThresh⟩]
  | .outShift => [⟨.shiftctrl, Layout.outShiftdir⟩, ⟨.shiftctrl, Layout.autopull⟩,
      ⟨.shiftctrl, Layout.pullThresh⟩]
  | .queueJoin => [⟨.shiftctrl, Layout.fjoinTx⟩, ⟨.shiftctrl, Layout.fjoinRx⟩]
  | .outPins => [⟨.pinctrl, Layout.outBase⟩, ⟨.pinctrl, Layout.outCount⟩]
  | .setPins => [⟨.pinctrl, Layout.setBase⟩, ⟨.pinctrl, Layout.setCount⟩]
  | .inPins => [⟨.pinctrl, Layout.inBase⟩]
  | .sidesetPins => [⟨.pinctrl, Layout.sidesetBase⟩]

theorem fields_pairwise (a : Aspect) : a.fields.Pairwise ConfigField.Apart := by
  cases a <;> decide

theorem fields_apart {a b : Aspect} (ne : a ≠ b) :
    ∀ f ∈ a.fields, ∀ g ∈ b.fields, f.Apart g := by
  have listed : ∀ a ∈ all, ∀ b ∈ all, a ≠ b → ∀ f ∈ a.fields, ∀ g ∈ b.fields, f.Apart g := by
    decide
  exact listed a a.mem_all b b.mem_all ne

def covers (a : Aspect) (w : ConfigWord) (i : Nat) : Bool := a.fields.any (·.covers w i)

theorem covers_eq_false {a : Aspect} {w : ConfigWord} {i : Nat} :
    a.covers w i = false ↔ ∀ f ∈ a.fields, f.covers w i = false := by
  simp [covers]

end Aspect

/-- What the getter of an aspect tells, as the call of the setter with the same arguments. -/
def Config.reading (c : Config) : Aspect → Setting
  | .clkdiv => .clkdivIntFrac c.clkdivIntFrac.1 c.clkdivIntFrac.2
  | .wrap => .wrap c.wrap.1 c.wrap.2
  | .jmpPin => .jmpPin c.jmpPin
  | .movStatus => .movStatus c.movStatus.1 c.movStatus.2
  | .sideset => .sideset c.sideset.1 c.sideset.2.1 c.sideset.2.2
  | .outSpecial => .outSpecial c.outSpecial.1 c.outSpecial.2.1 c.outSpecial.2.2
  | .inShift => .inShift c.inShift.1 c.inShift.2.1 c.inShift.2.2
  | .outShift => .outShift c.outShift.1 c.outShift.2.1 c.outShift.2.2
  | .queueJoin => .queueJoin c.queueJoin
  | .outPins => .outPins c.outPins.1 c.outPins.2
  | .setPins => .setPins c.setPins.1 c.setPins.2
  | .inPins => .inPins c.inPins
  | .sidesetPins => .sidesetPins c.sidesetPins

theorem Config.reading_eq_of_get_eq {c c' : Config} {a : Aspect}
    (same : ∀ f ∈ a.fields, f.get c' = f.get c) : c'.reading a = c.reading a := by
  have listed : a.fields.map (·.get c') = a.fields.map (·.get c) := List.map_congr_left same
  cases a <;>
    simp only [Aspect.fields, ConfigField.get, Config.word, List.map_cons, List.map_nil,
      List.cons.injEq, and_true] at listed
  case movStatus =>
    simp only [Config.reading, movStatus, Field.isSet_eq_of_extract_eq listed.1, listed.2]
  case queueJoin =>
    simp only [Config.reading, queueJoin, Field.isSet_eq_of_extract_eq listed.1,
      Field.isSet_eq_of_extract_eq listed.2]
  all_goals
    simp only [Config.reading, clkdivIntFrac, Config.wrap, jmpPin, sideset, outSpecial, inShift,
      outShift, outPins, setPins, inPins, sidesetPins, Field.isSet, listed]

theorem Config.check_of_not_le {part : ConfigPart} {value max : Nat} (h : ¬ value ≤ max) :
    check part value max = .error ⟨part, value⟩ := if_neg h

theorem Config.check_check_of_not (first second : ConfigPart) {a b max max' : Nat}
    (h : ¬ (a ≤ max ∧ b ≤ max')) :
    ∃ e, ∀ rest : Setter Unit,
      (do check first a max; check second b max'; rest : Setter Unit) = throw e := by
  by_cases low : a ≤ max
  · refine ⟨⟨second, b⟩, fun rest => ?_⟩
    rw [check_of_le low, check_of_not_le fun high => h ⟨low, high⟩]
    rfl
  · refine ⟨⟨first, a⟩, fun rest => ?_⟩
    rw [check_of_not_le low]
    rfl

namespace Setting

def aspect : Setting → Aspect
  | .clkdivIntFrac .. | .clkdiv _ => .clkdiv
  | .wrap .. => .wrap
  | .jmpPin _ => .jmpPin
  | .movStatus .. => .movStatus
  | .sideset .. => .sideset
  | .outSpecial .. => .outSpecial
  | .inShift .. => .inShift
  | .outShift .. => .outShift
  | .queueJoin _ => .queueJoin
  | .outPins .. => .outPins
  | .setPins .. => .setPins
  | .inPins _ => .inPins
  | .sidesetPins _ => .sidesetPins

def InRange : Setting → Prop
  | .clkdivIntFrac int frac => int = 0 → frac = 0
  | .clkdiv divisor => divisor.isBetween 1 65536 = true
  | .wrap target top => target ≤ 31 ∧ top ≤ 31
  | .jmpPin pin => pin ≤ 31
  | .movStatus _ level => level ≤ 15
  | .sideset bitCount isOptional _ => bitCount ≤ 5 ∧ (isOptional = true → 1 ≤ bitCount)
  | .outSpecial _ _ enableIndex => enableIndex ≤ 31
  | .inShift _ _ threshold | .outShift _ _ threshold => 1 ≤ threshold ∧ threshold ≤ 32
  | .queueJoin _ => True
  | .outPins base count => base ≤ 31 ∧ count ≤ 32
  | .setPins base count => base ≤ 31 ∧ count ≤ 5
  | .inPins base | .sidesetPins base => base ≤ 31

instance : DecidablePred InRange := fun s => by
  cases s <;> unfold InRange <;> infer_instance

/-- The same divider in 256ths, which the real one is cut to. -/
def truncated (divisor : Binary32) : Setting :=
  .clkdivIntFrac (BitVec.ofNat 16 (divisor.floorScaled 256 / 256))
    (BitVec.ofNat 8 (divisor.floorScaled 256 % 256))

/-- What the setter puts into the fields of its aspect, one value for each. -/
def values : Setting → List Word
  | .clkdivIntFrac int frac => [int.setWidth 32, frac.setWidth 32]
  | .clkdiv divisor =>
    [(BitVec.ofNat 16 (divisor.floorScaled 256 / 256)).setWidth 32,
      (BitVec.ofNat 8 (divisor.floorScaled 256 % 256)).setWidth 32]
  | .wrap target top => [Config.number target, Config.number top]
  | .jmpPin pin => [Config.number pin]
  | .movStatus source level => [Config.flag (source = .rxLessThan), Config.number level]
  | .sideset bitCount isOptional pindirs =>
    [Config.number bitCount, Config.flag isOptional, Config.flag pindirs]
  | .outSpecial sticky hasEnablePin enableIndex =>
    [Config.flag sticky, Config.flag hasEnablePin, Config.number enableIndex]
  | .inShift shiftRight auto threshold | .outShift shiftRight auto threshold =>
    [Config.flag shiftRight, Config.flag auto, Config.number threshold]
  | .queueJoin join => [Config.flag (join = .tx), Config.flag (join = .rx)]
  | .outPins base count | .setPins base count => [Config.number base, Config.number count]
  | .inPins base | .sidesetPins base => [Config.number base]

theorem length_values (s : Setting) : s.values.length = s.aspect.fields.length := by
  cases s <;> rfl

def stores (s : Setting) : List (ConfigField × Word) := s.aspect.fields.zip s.values

theorem stores_fst (s : Setting) : s.stores.map Prod.fst = s.aspect.fields :=
  List.map_fst_zip (Nat.le_of_eq s.length_values.symm)

theorem mem_fields_of_mem_stores {s : Setting} {store : ConfigField × Word}
    (member : store ∈ s.stores) : store.1 ∈ s.aspect.fields := by
  rw [← stores_fst]
  exact List.mem_map_of_mem member

theorem stores_pairwise (s : Setting) : s.stores.Pairwise fun a b => a.1.Apart b.1 := by
  have apart := s.aspect.fields_pairwise
  rwa [← stores_fst, List.pairwise_map] at apart

theorem inRange_truncated {divisor : Binary32} (h : (Setting.clkdiv divisor).InRange) :
    (truncated divisor).InRange := by
  simp only [InRange, Binary32.isBetween, Bool.and_eq_true, decide_eq_true_eq] at h
  have low : 256 ≤ divisor.floorScaled 256 := by
    rw [Binary32.floorScaled, Nat.le_div_iff_mul_le divisor.den_pos]
    omega
  have high : divisor.floorScaled 256 ≤ 256 * 65536 := by
    rw [Binary32.floorScaled]
    refine Nat.div_le_of_le_mul ?_
    have bound := Nat.mul_le_mul_left 256 h.2.2
    calc 256 * divisor.num ≤ 256 * (65536 * divisor.den) := bound
      _ = divisor.den * (256 * 65536) := by omega
  intro whole
  have whole := congrArg BitVec.toNat whole
  simp only [BitVec.toNat_ofNat, BitVec.ofNat_eq_ofNat] at whole
  apply BitVec.eq_of_toNat_eq
  simp only [BitVec.toNat_ofNat, BitVec.ofNat_eq_ofNat]
  omega

theorem setter_of_inRange {s : Setting} (h : s.InRange) :
    s.setter = modify (·.putAll s.stores) := by
  cases s with
  | clkdivIntFrac int frac =>
    rw [setter, Config.setClkdivIntFrac, if_neg fun bad => bad.2 (h bad.1)]
    rfl
  | clkdiv divisor =>
    have parts := inRange_truncated h
    have between : divisor.isBetween 1 65536 = true := h
    rw [setter, Config.setClkdiv_eq, if_pos between]
    exact if_neg fun bad => bad.2 (parts bad.1)
  | wrap target top =>
    rw [setter, Config.setWrap, Config.check_of_le h.1, Config.check_of_le h.2]
    rfl
  | jmpPin pin =>
    rw [setter, Config.setJmpPin, Config.check_of_le h]
    rfl
  | movStatus source level =>
    rw [setter, Config.setMovStatus, Config.check_of_le h]
    rfl
  | sideset bitCount isOptional pindirs =>
    have enabled : ¬(isOptional = true ∧ bitCount = 0) := fun bad => by
      have := h.2 bad.1
      omega
    rw [setter, Config.setSideset, Config.check_of_le h.1, if_neg enabled]
    rfl
  | outSpecial sticky hasEnablePin enableIndex =>
    rw [setter, Config.setOutSpecial, Config.check_of_le h]
    rfl
  | inShift shiftRight autopush threshold =>
    have within : 1 ≤ threshold ∧ threshold ≤ 32 := h
    rw [setter, Config.setInShift, Config.checkThreshold, if_pos within]
    rfl
  | outShift shiftRight autopull threshold =>
    have within : 1 ≤ threshold ∧ threshold ≤ 32 := h
    rw [setter, Config.setOutShift, Config.checkThreshold, if_pos within]
    rfl
  | queueJoin join => rfl
  | outPins base count =>
    rw [setter, Config.setOutPins, Config.check_of_le h.1, Config.check_of_le h.2]
    rfl
  | setPins base count =>
    rw [setter, Config.setSetPins, Config.check_of_le h.1, Config.check_of_le h.2]
    rfl
  | inPins base =>
    rw [setter, Config.setInPins, Config.check_of_le h]
    rfl
  | sidesetPins base =>
    rw [setter, Config.setSidesetPins, Config.check_of_le h]
    rfl

/-- A call with an argument out of range gives the same reason whatever the configuration is. It has
replaced nothing by then. -/
theorem setter_of_not_inRange {s : Setting} (h : ¬ s.InRange) : ∃ e, s.setter = throw e := by
  cases s with
  | clkdivIntFrac int frac =>
    have bad : int = 0 ∧ frac ≠ 0 := Classical.not_imp.mp h
    refine ⟨⟨.clkdivFrac, frac.toNat⟩, ?_⟩
    rw [setter, Config.setClkdivIntFrac, if_pos bad]
    rfl
  | clkdiv divisor => exact ⟨_, (Config.setClkdiv_eq divisor).trans (if_neg h)⟩
  | wrap target top =>
    obtain ⟨e, refused⟩ := Config.check_check_of_not .wrapTarget .wrap h
    exact ⟨e, refused _⟩
  | jmpPin pin =>
    refine ⟨⟨.jmpPin, pin⟩, ?_⟩
    rw [setter, Config.setJmpPin, Config.check_of_not_le h]
    rfl
  | movStatus source level =>
    refine ⟨⟨.statusN, level⟩, ?_⟩
    rw [setter, Config.setMovStatus, Config.check_of_not_le h]
    rfl
  | sideset bitCount isOptional pindirs =>
    by_cases small : bitCount ≤ 5
    · have bad : isOptional = true ∧ bitCount = 0 := by
        obtain ⟨optional, zero⟩ := Classical.not_imp.mp fun accepted => h ⟨small, accepted⟩
        exact ⟨optional, by omega⟩
      refine ⟨⟨.optionalSidesetCount, bitCount⟩, ?_⟩
      rw [setter, Config.setSideset, Config.check_of_le small, if_pos bad]
      rfl
    · refine ⟨⟨.sidesetCount, bitCount⟩, ?_⟩
      rw [setter, Config.setSideset, Config.check_of_not_le small]
      rfl
  | outSpecial sticky hasEnablePin enableIndex =>
    refine ⟨⟨.outEnSel, enableIndex⟩, ?_⟩
    rw [setter, Config.setOutSpecial, Config.check_of_not_le h]
    rfl
  | inShift shiftRight autopush threshold =>
    have outside : ¬(1 ≤ threshold ∧ threshold ≤ 32) := h
    refine ⟨⟨.pushThreshold, threshold⟩, ?_⟩
    rw [setter, Config.setInShift, Config.checkThreshold, if_neg outside]
    rfl
  | outShift shiftRight autopull threshold =>
    have outside : ¬(1 ≤ threshold ∧ threshold ≤ 32) := h
    refine ⟨⟨.pullThreshold, threshold⟩, ?_⟩
    rw [setter, Config.setOutShift, Config.checkThreshold, if_neg outside]
    rfl
  | queueJoin join => exact absurd trivial h
  | outPins base count =>
    obtain ⟨e, refused⟩ := Config.check_check_of_not .outBase .outCount h
    exact ⟨e, refused _⟩
  | setPins base count =>
    obtain ⟨e, refused⟩ := Config.check_check_of_not .setBase .setCount h
    exact ⟨e, refused _⟩
  | inPins base =>
    refine ⟨⟨.inBase, base⟩, ?_⟩
    rw [setter, Config.setInPins, Config.check_of_not_le h]
    rfl
  | sidesetPins base =>
    refine ⟨⟨.sidesetBase, base⟩, ?_⟩
    rw [setter, Config.setSidesetPins, Config.check_of_not_le h]
    rfl

theorem apply_of_inRange {s : Setting} (h : s.InRange) (c : Config) :
    s.apply c = .ok (c.putAll s.stores) := by
  rw [apply, Config.Setter.apply_eq_ok_iff, setter_of_inRange h, Config.Setter.on_modify]

theorem apply_of_not_inRange {s : Setting} (h : ¬ s.InRange) :
    ∃ e, ∀ c, s.apply c = .error e := by
  obtain ⟨e, refused⟩ := setter_of_not_inRange h
  refine ⟨e, fun c => ?_⟩
  rw [apply, refused]
  rfl

end Setting

end PioBlock
