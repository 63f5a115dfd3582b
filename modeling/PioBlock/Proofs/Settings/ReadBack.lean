import PioBlock.Proofs.Settings.Lenses

/-! What the getters tell of a configuration is all there is to it. A configuration that calls of
setters lead to holds in each of its aspects what some accepted call puts there, and zeros
elsewhere. So its readings are in range, and making them as calls on the reset configuration gives
it back, in whatever order they are made. -/

namespace PioBlock

namespace Config

/-- What calls of setters lead to, from the reset configuration or from that of a program. -/
inductive Reachable : Config → Prop where
  | reset : Reachable Config.reset
  | forProgram {p : Program} {offset : Nat} {c : Config} (made : forProgram p offset = .ok c) :
      Reachable c
  | setting {c : Config} (s : Setting) (before : Reachable c) : Reachable (s.result c)

variable {c c' : Config} {a : Aspect}

theorem aspect_reading (c : Config) (a : Aspect) : (c.reading a).aspect = a := by cases a <;> rfl

theorem eq_of_get_eq (fields : ∀ a : Aspect, ∀ f ∈ a.fields, f.get c' = f.get c)
    (others : ∀ w i, (∀ a : Aspect, a.covers w i = false) →
      (c'.word w).getLsbD i = (c.word w).getLsbD i) : c' = c := by
  apply eq_of_word_eq
  intro w
  apply BitVec.eq_of_getLsbD_eq
  intro i _
  by_cases owned : ∃ a : Aspect, a.covers w i = true
  · obtain ⟨a, covered⟩ := owned
    obtain ⟨f, member, inside⟩ := List.any_eq_true.mp covered
    rw [f.getLsbD_of_covers inside, f.getLsbD_of_covers inside, fields a f member]
  · exact others w i fun a => Bool.eq_false_iff.mpr fun covered => owned ⟨a, covered⟩

/-- Each aspect holds what its own reading would put there, and the remaining bits are zero. -/
structure Settled (c : Config) : Prop where
  inRange : ∀ a, (c.reading a).InRange
  holds : ∀ a, ∀ store ∈ (c.reading a).stores, store.1.get c = store.2 &&& store.1.field.max
  clear : ∀ w i, (∀ a : Aspect, a.covers w i = false) → (c.word w).getLsbD i = false

theorem settled_reset : reset.Settled where
  inRange a := by
    have listed : ∀ a ∈ Aspect.all, (reset.reading a).InRange := by decide
    exact listed a a.mem_all
  holds a := by
    have listed : ∀ a ∈ Aspect.all, ∀ store ∈ (reset.reading a).stores,
        store.1.get reset = store.2 &&& store.1.field.max := by decide
    exact listed a a.mem_all
  clear w i outside := by
    have listed : ∀ i < 32, (∀ a ∈ Aspect.all, a.covers w i = false) →
        (reset.word w).getLsbD i = false := by cases w <;> decide
    by_cases inside : i < 32
    · exact listed i inside fun a _ => outside a
    · exact BitVec.getLsbD_of_ge _ _ (by omega)

theorem Settled.putAll (settled : c.Settled) {s : Setting} (inside : s.InRange)
    (direct : ∀ divisor, s ≠ .clkdiv divisor) : (c.putAll s.stores).Settled where
  inRange a := by
    by_cases own : a = s.aspect
    · rwa [own, Setting.reading_putAll inside direct]
    · rw [Setting.reading_putAll_of_ne own]
      exact settled.inRange a
  holds a := by
    by_cases own : a = s.aspect
    · rw [own, Setting.reading_putAll inside direct]
      exact Setting.get_putAll_stores s c
    · rw [Setting.reading_putAll_of_ne own]
      intro store stored
      have member := Setting.mem_fields_of_mem_stores stored
      rw [aspect_reading] at member
      rw [Setting.get_putAll_of_ne own c _ member]
      exact settled.holds a store stored
  clear w i outside := by
    rw [Setting.bit_putAll (outside s.aspect)]
    exact settled.clear w i outside

theorem Settled.result (settled : c.Settled) (s : Setting) : (s.result c).Settled := by
  by_cases inside : s.InRange
  · rw [Setting.result_of_inRange inside]
    cases s with
    | clkdiv divisor =>
      exact settled.putAll (s := Setting.truncated divisor) (Setting.inRange_truncated inside)
        fun _ other => nomatch other
    | _ => exact settled.putAll inside nofun
  · rwa [Setting.result_of_not_inRange inside]

theorem forProgram_eq_result {p : Program} {offset : Nat} (made : forProgram p offset = .ok c) :
    ∃ first second : Setting, c = second.result (first.result reset) := by
  let shift := if p.isRelocatable then offset else 0
  let first : Setting := .wrap ((p.wrapTarget.val + shift) % 32) ((p.wrap.val + shift) % 32)
  let second : Setting :=
    .sideset p.sideSet.totalBits p.sideSet.isOptional p.sideSet.pindirs
  refine ⟨first, second, ?_⟩
  have inside : first.InRange := by
    change _ % 32 ≤ 31 ∧ _ % 32 ≤ 31
    omega
  have calls : (check .offset offset 31 >>= fun _ =>
      (first.setter >>= fun _ => second.setter).apply reset) = .ok c := made
  cases checked : check .offset offset 31 with
  | error e =>
    rw [checked] at calls
    cases calls
  | ok _ =>
    rw [checked] at calls
    have wrapped : first.setter.on reset = (.ok (), first.result reset) := by
      rw [Setting.result_of_inRange inside, Setting.setter_of_inRange inside, Setter.on_modify]
    have last := Setter.on_bind wrapped fun _ => second.setter
    have ended := Setter.apply_eq_ok_iff.mp calls
    rw [last] at ended
    exact (congrArg Prod.snd ended).symm

theorem Reachable.settled (reachable : c.Reachable) : c.Settled := by
  induction reachable with
  | reset => exact settled_reset
  | forProgram made =>
    obtain ⟨first, second, rfl⟩ := forProgram_eq_result made
    exact (settled_reset.result first).result second
  | setting s _ ih => exact ih.result s

/-- Makes the readings of `c` as calls on `start`, in the given order. -/
def replay (c : Config) (order : List Aspect) (start : Config) : Except ConfigError Config :=
  (order.map c.reading).foldlM (fun c s => s.apply c) start

/-- The calls are all accepted. The aspects in the list become those of `c`, all other bits stay. -/
theorem Settled.replay_eq_ok (settled : c.Settled) (order : List Aspect) (start : Config) :
    ∃ c', c.replay order start = .ok c' ∧
      (∀ a : Aspect, ∀ f ∈ a.fields, f.get c' = f.get (if a ∈ order then c else start)) ∧
      ∀ w i, (∀ a : Aspect, a.covers w i = false) →
        (c'.word w).getLsbD i = (start.word w).getLsbD i := by
  -- an aspect may be listed twice; the last of its calls decides, and all of them are the same
  induction order generalizing start with
  | nil => exact ⟨start, rfl, fun a f _ => by rw [if_neg List.not_mem_nil], fun _ _ _ => rfl⟩
  | cons b rest ih =>
    obtain ⟨c', replayed, fields, others⟩ := ih (start.putAll (c.reading b).stores)
    have accepted := Setting.apply_of_inRange (settled.inRange b) start
    refine ⟨c', ?_, ?_, ?_⟩
    · rw [replay, List.map_cons, List.foldlM_cons, accepted]
      exact replayed
    · intro a f member
      rw [fields a f member]
      by_cases later : a ∈ rest
      · rw [if_pos later, if_pos (List.mem_cons_of_mem b later)]
      · rw [if_neg later]
        by_cases own : a = b
        · subst own
          rw [if_pos List.mem_cons_self]
          have stored : f ∈ (c.reading a).stores.map Prod.fst := by
            rwa [Setting.stores_fst, aspect_reading]
          obtain ⟨store, held, rfl⟩ := List.mem_map.mp stored
          rw [Setting.get_putAll_stores _ _ store held, settled.holds a store held]
        · rw [if_neg (by simp [own, later])]
          exact Setting.get_putAll_of_ne (by rwa [aspect_reading]) start f member
    · intro w i outside
      rw [others w i outside, Setting.bit_putAll (outside _)]

theorem Settled.not_both_joined (settled : c.Settled) :
    ¬(Layout.fjoinTx.isSet c.shiftctrl = true ∧ Layout.fjoinRx.isSet c.shiftctrl = true) := by
  have tx : Layout.fjoinTx.extract c.shiftctrl = flag (c.queueJoin = .tx) &&& Layout.fjoinTx.max :=
    settled.holds .queueJoin (⟨.shiftctrl, Layout.fjoinTx⟩, flag (c.queueJoin = .tx)) (.head _)
  have rx : Layout.fjoinRx.extract c.shiftctrl = flag (c.queueJoin = .rx) &&& Layout.fjoinRx.max :=
    settled.holds .queueJoin (⟨.shiftctrl, Layout.fjoinRx⟩, flag (c.queueJoin = .rx))
      (.tail _ (.head _))
  rw [Field.isSet, Field.isSet, tx, rx, flag_and_max_ne_zero, flag_and_max_ne_zero]
  cases c.queueJoin <;> decide

/-- The readings of a reachable configuration are calls that would be accepted, and they tell all
of it: no bit is set outside the aspects, and the calls rebuild it from the reset configuration, as
long as no aspect is left out. -/
theorem Reachable.read_back (reachable : c.Reachable) :
    (∀ a, (c.reading a).InRange) ∧
    ¬(Layout.fjoinTx.isSet c.shiftctrl = true ∧ Layout.fjoinRx.isSet c.shiftctrl = true) ∧
    (∀ w i, (∀ a : Aspect, a.covers w i = false) → (c.word w).getLsbD i = false) ∧
    ∀ order : List Aspect, (∀ a, a ∈ order) → c.replay order Config.reset = .ok c := by
  have settled := reachable.settled
  refine ⟨settled.inRange, settled.not_both_joined, settled.clear, ?_⟩
  intro order complete
  obtain ⟨c', replayed, fields, others⟩ := settled.replay_eq_ok order Config.reset
  have same : c' = c := by
    apply eq_of_get_eq
    · intro a f member
      rw [fields a f member, if_pos (complete a)]
    · intro w i outside
      rw [others w i outside, settled_reset.clear w i outside, settled.clear w i outside]
  rwa [same] at replayed

theorem Reachable.read_back_joined :
    ∃ c, c = Setting.result (.queueJoin .tx) (Setting.result (.outShift true true 32)
        (Setting.result (.setPins 4 6) Config.reset)) ∧
      c.reading .outShift = .outShift true true 32 ∧ c.reading .queueJoin = .queueJoin .tx ∧
      c.replay Aspect.all.reverse Config.reset = .ok c := by
  have reachable := ((Reachable.reset.setting (.setPins 4 6)).setting
    (.outShift true true 32)).setting (.queueJoin .tx)
  obtain ⟨-, -, -, rebuilt⟩ := reachable.read_back
  exact ⟨_, rfl, by decide, by decide, rebuilt _ fun a => List.mem_reverse.mpr a.mem_all⟩

end Config

end PioBlock
