import PioBlock.Proofs.Settings.Aspects

/-! Setters and getters as lenses. A call whose arguments are in range is accepted whatever the
configuration is; then its getter tells just those arguments, the other getters tell what they
told before, and no bit outside the aspect has changed. Calls about different aspects do not notice
each other, so they may be made in either order. -/

namespace PioBlock

namespace Config

theorem toNat_number_and_max {f : Field} {n max : Nat} (h : n ≤ max) (room : max < 2 ^ f.width) :
    (number n &&& f.max).toNat = n := by
  have read := Field.toNat_extract_insert 0 (Nat.lt_of_le_of_lt h room)
  rwa [Field.extract_insert] at read

theorem flag_and_max_ne_zero (f : Field) (b : Bool) : (flag b &&& f.max != 0) = b := by
  have fits : (flag b).toNat < 2 ^ f.width :=
    calc (flag b).toNat < 2 := by cases b <;> decide
      _ ≤ 2 ^ f.width := Nat.le_self_pow (Nat.ne_of_gt f.width_pos) 2
  rw [Field.and_max_of_lt fits]
  cases b <;> rfl

theorem setWidth_and_max {n : Nat} {f : Field} (width : f.width = n) (x : BitVec n) :
    (x.setWidth 32 &&& f.max).setWidth n = x := by
  have inside := f.in_word
  have value : (x.setWidth 32).toNat = x.toNat := BitVec.toNat_setWidth_of_le (by omega)
  rw [Field.and_max_of_lt (by rw [value, width]; exact x.isLt)]
  apply BitVec.eq_of_toNat_eq
  rw [BitVec.toNat_setWidth, value, Nat.mod_eq_of_lt x.isLt]

theorem threshold_number_and_max {f : Field} (width : f.width = 5) {n : Nat} (low : 1 ≤ n)
    (high : n ≤ 32) : threshold (number n &&& f.max) = n := by
  by_cases full : n = 32
  · subst full
    rw [Field.max, width]
    rfl
  · have read := toNat_number_and_max (f := f) (show n ≤ 31 by omega) (by rw [width]; decide)
    have ne : number n &&& f.max ≠ 0 := fun zero => by
      rw [zero] at read
      simp at read
      omega
    rw [threshold, if_neg ne, read]

end Config

namespace Setting

variable {s t : Setting}

theorem result_of_inRange (h : s.InRange) (c : Config) : s.result c = c.putAll s.stores :=
  Config.Setter.result_of_apply (apply_of_inRange h c)

theorem result_of_not_inRange (h : ¬ s.InRange) (c : Config) : s.result c = c := by
  obtain ⟨e, refused⟩ := setter_of_not_inRange h
  rw [result, refused, Config.Setter.result, Config.Setter.on_throw]

theorem result_of_refused {c : Config} {e : ConfigError} (h : s.apply c = .error e) :
    s.result c = c := by
  refine result_of_not_inRange (fun inside => ?_) c
  rw [apply_of_inRange inside] at h
  cases h

theorem eq_putAll_of_apply {c c' : Config} (h : s.apply c = .ok c') :
    s.InRange ∧ c' = c.putAll s.stores := by
  by_cases inside : s.InRange
  · rw [apply_of_inRange inside] at h
    exact ⟨inside, (Except.ok.inj h).symm⟩
  · obtain ⟨e, refused⟩ := apply_of_not_inRange inside
    cases (refused c).symm.trans h

theorem get_putAll_stores (s : Setting) (c : Config) : ∀ store ∈ s.stores,
    store.1.get (c.putAll s.stores) = store.2 &&& store.1.field.max :=
  Config.get_putAll s.stores_pairwise c

theorem get_fields_eq (s : Setting) (c : Config) :
    s.aspect.fields.map (·.get (c.putAll s.stores)) =
      s.aspect.fields.zipWith (fun f v => v &&& f.field.max) s.values :=
  calc s.aspect.fields.map (·.get (c.putAll s.stores))
    _ = (s.stores.map Prod.fst).map (·.get (c.putAll s.stores)) := by rw [stores_fst]
    _ = s.stores.map fun store => store.2 &&& store.1.field.max := by
      rw [List.map_map]
      exact List.map_congr_left (get_putAll_stores s c)
    _ = s.aspect.fields.zipWith (fun f v => v &&& f.field.max) s.values := by
      rw [stores, List.map_zip_eq_zipWith]
      rfl

/-- The getter tells what was set; only a real divider may have been cut. -/
theorem reading_putAll (h : s.InRange) (direct : ∀ divisor, s ≠ .clkdiv divisor) (c : Config) :
    (c.putAll s.stores).reading s.aspect = s := by
  have held := get_fields_eq s c
  cases s <;>
    simp only [aspect, values, Aspect.fields, ConfigField.get, Config.word, List.map_cons,
      List.map_nil, List.zipWith_cons_cons, List.zipWith_nil_left, List.cons.injEq,
      and_true] at held <;>
    simp only [aspect, Config.reading]
  case clkdivIntFrac int frac =>
    have whole : (int.setWidth 32 &&& Layout.clkdivInt.max).setWidth 16 = int :=
      Config.setWidth_and_max (n := 16) (f := Layout.clkdivInt) rfl int
    have part : (frac.setWidth 32 &&& Layout.clkdivFrac.max).setWidth 8 = frac :=
      Config.setWidth_and_max (n := 8) (f := Layout.clkdivFrac) rfl frac
    rw [Config.clkdivIntFrac, held.1, held.2, whole, part]
  case clkdiv divisor => exact absurd rfl (direct divisor)
  case wrap target top =>
    rw [Config.wrap, held.1, held.2, Config.toNat_number_and_max h.1 (by decide),
      Config.toNat_number_and_max h.2 (by decide)]
  case jmpPin pin => rw [Config.jmpPin, held, Config.toNat_number_and_max h (by decide)]
  case movStatus source level =>
    rw [Config.movStatus, Field.isSet, held.1, held.2, Config.flag_and_max_ne_zero,
      Config.toNat_number_and_max h (by decide)]
    cases source <;> rfl
  case sideset bitCount isOptional pindirs =>
    rw [Config.sideset, Field.isSet, Field.isSet, held.1, held.2.1, held.2.2,
      Config.toNat_number_and_max h.1 (by decide), Config.flag_and_max_ne_zero,
      Config.flag_and_max_ne_zero]
  case outSpecial sticky hasEnablePin enableIndex =>
    rw [Config.outSpecial, Field.isSet, Field.isSet, held.1, held.2.1, held.2.2,
      Config.flag_and_max_ne_zero, Config.flag_and_max_ne_zero,
      Config.toNat_number_and_max h (by decide)]
  case inShift shiftRight autopush threshold =>
    rw [Config.inShift, Field.isSet, Field.isSet, held.1, held.2.1, held.2.2,
      Config.flag_and_max_ne_zero, Config.flag_and_max_ne_zero,
      Config.threshold_number_and_max rfl h.1 h.2]
  case outShift shiftRight autopull threshold =>
    rw [Config.outShift, Field.isSet, Field.isSet, held.1, held.2.1, held.2.2,
      Config.flag_and_max_ne_zero, Config.flag_and_max_ne_zero,
      Config.threshold_number_and_max rfl h.1 h.2]
  case queueJoin join =>
    rw [Config.queueJoin, Field.isSet, Field.isSet, held.1, held.2, Config.flag_and_max_ne_zero,
      Config.flag_and_max_ne_zero]
    cases join <;> rfl
  case outPins base count =>
    rw [Config.outPins, held.1, held.2, Config.toNat_number_and_max h.1 (by decide),
      Config.toNat_number_and_max h.2 (by decide)]
  case setPins base count =>
    rw [Config.setPins, held.1, held.2, Config.toNat_number_and_max h.1 (by decide),
      Config.toNat_number_and_max h.2 (by decide)]
  case inPins base => rw [Config.inPins, held, Config.toNat_number_and_max h (by decide)]
  case sidesetPins base =>
    rw [Config.sidesetPins, held, Config.toNat_number_and_max h (by decide)]

theorem get_putAll_of_ne {a : Aspect} (ne : a ≠ s.aspect) (c : Config) :
    ∀ f ∈ a.fields, f.get (c.putAll s.stores) = f.get c := fun f member =>
  Config.get_putAll_of_apart (fun _ stored =>
    Aspect.fields_apart ne f member _ (mem_fields_of_mem_stores stored)) c

theorem reading_putAll_of_ne {a : Aspect} (ne : a ≠ s.aspect) (c : Config) :
    (c.putAll s.stores).reading a = c.reading a :=
  Config.reading_eq_of_get_eq (get_putAll_of_ne ne c)

theorem bit_putAll {w : ConfigWord} {i : Nat} (outside : s.aspect.covers w i = false)
    (c : Config) : ((c.putAll s.stores).word w).getLsbD i = (c.word w).getLsbD i :=
  Config.bit_putAll_of_not_covers (fun _ stored =>
    Aspect.covers_eq_false.mp outside _ (mem_fields_of_mem_stores stored)) c

theorem outcome_eq (s : Setting) (c c' : Config) : s.outcome c' = s.outcome c := by
  by_cases inside : s.InRange
  · rw [outcome, outcome, setter_of_inRange inside]
    rfl
  · obtain ⟨e, refused⟩ := setter_of_not_inRange inside
    rw [outcome, outcome, refused]
    rfl

theorem result_result (ne : s.aspect ≠ t.aspect) (c : Config) :
    t.result (s.result c) = s.result (t.result c) := by
  by_cases hs : s.InRange
  · by_cases ht : t.InRange
    · simp only [result_of_inRange hs, result_of_inRange ht]
      exact Config.putAll_putAll (fun store stored other othered =>
        Aspect.fields_apart ne _ (mem_fields_of_mem_stores stored) _
          (mem_fields_of_mem_stores othered)) c
    · simp only [result_of_not_inRange ht]
  · simp only [result_of_not_inRange hs]

/-- A call is accepted just when its arguments are in range, and a refused one changes nothing. An
accepted one is what its getter then tells; the bits outside its fields, and so all other getters,
are as before. Two calls about different aspects end the same way in either order, with the same
configuration. -/
theorem independent_lenses (s : Setting) (c : Config) :
    ((∃ c', s.apply c = .ok c') ↔ s.InRange) ∧
    (∀ e, s.apply c = .error e → s.result c = c) ∧
    (∀ c', s.apply c = .ok c' →
      ((∀ divisor, s ≠ .clkdiv divisor) → c'.reading s.aspect = s) ∧
      (∀ w i, s.aspect.covers w i = false → (c'.word w).getLsbD i = (c.word w).getLsbD i) ∧
      ∀ a, a ≠ s.aspect → c'.reading a = c.reading a) ∧
    ∀ t : Setting, s.aspect ≠ t.aspect →
      s.outcome (t.result c) = s.outcome c ∧ t.outcome (s.result c) = t.outcome c ∧
      t.result (s.result c) = s.result (t.result c) := by
  refine ⟨⟨?_, fun inside => ⟨_, apply_of_inRange inside c⟩⟩, fun e => result_of_refused, ?_, ?_⟩
  · rintro ⟨c', applied⟩
    exact (eq_putAll_of_apply applied).1
  · intro c' applied
    obtain ⟨inside, rfl⟩ := eq_putAll_of_apply applied
    exact ⟨fun direct => reading_putAll inside direct c, fun w i outside => bit_putAll outside c,
      fun a ne => reading_putAll_of_ne ne c⟩
  · exact fun t ne => ⟨outcome_eq s c _, outcome_eq t c _, result_result ne c⟩

theorem independent_lenses_threshold :
    ∃ c', Setting.apply (.inShift false true 32) .reset = .ok c' ∧
      c'.reading .inShift = .inShift false true 32 ∧
      c'.reading .outShift = Config.reset.reading .outShift ∧
      Setting.result (.outShift true true 7) c' = Setting.result (.inShift false true 32)
        (Setting.result (.outShift true true 7) .reset) := by
  obtain ⟨accepted, -, kept, commute⟩ := independent_lenses (.inShift false true 32) .reset
  obtain ⟨c', applied⟩ := accepted.mpr (by decide)
  obtain ⟨own, -, others⟩ := kept c' applied
  have order := (commute (.outShift true true 7) (by decide)).2.2
  have left : Setting.result (.inShift false true 32) Config.reset = c' :=
    Config.Setter.result_of_apply applied
  rw [left] at order
  exact ⟨c', applied, own fun _ => Setting.noConfusion, others .outShift (by decide), order⟩

end Setting

end PioBlock
