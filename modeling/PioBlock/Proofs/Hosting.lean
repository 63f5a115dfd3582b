import PioBlock.Proofs.LawfulBlock
import PioBlock.Proofs.Scope

/-! A block mapped in a dispatch. When no earlier block claims one of its registers, every address
of a register, through any alias, finds the block and that register, and an access to it does
nothing but that one access of the block. What is said of the block then holds of the dispatch, for
as long as the accesses go to the block. -/

namespace PioBlock

open RegisterBlock

namespace Dispatch

variable {β : Type} [RegisterBlock β] {d : Dispatch β} {position pio : Nat} {base : Word}
  {block : β}

/-- The block at a position holds the registers of PIO block `pio`, mapped at `base`, and the
blocks tried before it leave their addresses to it. -/
structure Hosts (d : Dispatch β) (position pio : Nat) (base : Word) (block : β) : Prop where
  found : d.blocks[position]? = some block
  base_eq : (file block).base = base
  infos_eq : (file block).infos = PioRegister.all.map (·.info pio)
  covers : PioRegister.count ≤ span block
  first : ∀ earlier ∈ d.blocks.take position, ∀ (r : PioRegister) (a : Alias),
    claims earlier (Layout.address base r.index ||| a.bits) = false

theorem locateFrom_eq_some (start : Nat) {address : Word} {blocks : List β} {position : Nat}
    {block : β} (found : blocks[position]? = some block) (claimed : claims block address = true)
    (first : ∀ earlier ∈ blocks.take position, claims earlier address = false) :
    locateFrom address start blocks =
      some ⟨start + position, block, select (file block).base address⟩ := by
  induction blocks generalizing position start with
  | nil => cases found
  | cons head rest ih =>
    cases position with
    | zero =>
      cases found
      rw [locateFrom, if_pos claimed]
      rfl
    | succ position =>
      have passed := first head (by simp)
      have found' : rest[position]? = some block := by simpa using found
      have later := ih (start + 1) found' fun earlier h => first earlier (by simp [h])
      rw [locateFrom, passed, if_neg (by decide), later]
      simp only [Nat.add_assoc, Nat.add_comm 1]

namespace Hosts

theorem locate (hosts : d.Hosts position pio base block) (window : Layout.IsWindow base)
    (r : PioRegister) (a : Alias) :
    d.locate (Layout.address base r.index ||| a.bits) = .ok ⟨position, block, r.index⟩ := by
  have lt := r.index_lt
  have small : r.index < 1024 := Nat.lt_trans lt (by decide)
  have selected := Layout.select_address window small a
  have claimed : claims block (Layout.address base r.index ||| a.bits) = true := by
    rw [claims, hosts.base_eq, selected]
    exact decide_eq_true (Nat.lt_of_lt_of_le lt hosts.covers)
  have located := locateFrom_eq_some 0 hosts.found claimed
    fun earlier h => hosts.first earlier h r a
  rw [Dispatch.locate, if_pos (Layout.address_and_three window small a), located, hosts.base_eq,
    selected, Nat.zero_add]

theorem read_eq (hosts : d.Hosts position pio base block) (window : Layout.IsWindow base)
    (r : PioRegister) :
    RegisterSpace.read (Layout.address base r.index) d =
      ((RegisterBlock.read r.index block).1.mapError
          (.faulted (Layout.address base r.index)),
        d.replace position (RegisterBlock.read r.index block).2) := by
  have located := hosts.locate window r .plain
  rw [Layout.or_bits_plain] at located
  change Dispatch.read _ d = _
  rw [Dispatch.read, located]

theorem write_eq (hosts : d.Hosts position pio base block) (window : Layout.IsWindow base)
    (r : PioRegister) (a : Alias) (w : MaskedWrite) :
    RegisterSpace.write (Layout.address base r.index ||| a.bits) w d =
      ((RegisterBlock.write r.index w block).1.mapError
          (.faulted (Layout.address base r.index ||| a.bits)),
        d.replace position (RegisterBlock.write r.index w block).2) := by
  change Dispatch.write _ w d = _
  rw [Dispatch.write, hosts.locate window r a]

theorem replace (hosts : d.Hosts position pio base block) {index : Nat} {block' : β}
    (same : (file block).SameBut index (file block')) (span_eq : span block' = span block) :
    (d.replace position block').Hosts position pio base block' where
  found := by
    have lt := (List.getElem?_eq_some_iff.mp hosts.found).1
    simp [Dispatch.replace, lt]
  base_eq := same.base_eq.trans hosts.base_eq
  infos_eq := same.infos_eq.trans hosts.infos_eq
  covers := by
    rw [span_eq]
    exact hosts.covers
  first earlier h := by
    rw [Dispatch.replace, List.take_set_of_le (Nat.le_refl position)] at h
    exact hosts.first earlier h

theorem register (hosts : d.Hosts position pio base block) (r : PioRegister) :
    ∃ reg, (file block).registers[r.index]? = some reg ∧ reg.toRegisterInfo = r.info pio := by
  have listed := congrArg (·[r.index]?) hosts.infos_eq
  have indexed : PioRegister.all[r.index]? = some r := r.ofIndex?_index
  simp only [RegisterFile.infos, List.getElem?_map, indexed, Option.map_some,
    Option.map_eq_some_iff] at listed
  exact listed

end Hosts

theorem hosts_alone {block : BenchBlock} (file_eq : block.file = RegisterFile.pioAt pio base)
    (span_eq : block.span = none) : (⟨[block]⟩ : Dispatch BenchBlock).Hosts 0 pio base block where
  found := rfl
  base_eq := by
    change block.file.base = base
    rw [file_eq]
    rfl
  infos_eq := by
    change block.file.infos = _
    rw [file_eq, RegisterFile.infos, RegisterFile.pioAt, RegisterFile.ofInfos, List.map_map]
    exact List.map_id _
  covers := by
    change PioRegister.count ≤ block.span.getD block.file.size
    rw [span_eq, file_eq]
    exact Nat.le_of_eq (RegisterFile.size_pioAt pio base).symm
  first _ h := nomatch h

def wordAt (d : Dispatch β) (position : Nat) (r : PioRegister) : Option Word :=
  (d.file? position).bind fun f => f.value? r.index

/-- PIO block `pio` is hosted at a position, and its registers hold these words. -/
def Holds (d : Dispatch β) (position pio : Nat) (base : Word) (words : PioRegister → Word) : Prop :=
  ∃ block, d.Hosts position pio base block ∧ ∀ r, (file block).value? r.index = some (words r)

theorem Hosts.holds (hosts : d.Hosts position pio base block) :
    ∃ words, d.Holds position pio base words := by
  choose reg registered _ using hosts.register
  refine ⟨fun r => (reg r).value, block, hosts, fun r => ?_⟩
  rw [RegisterFile.value?, registered]
  rfl

namespace Holds

variable {words : PioRegister → Word}

theorem wordAt_eq (holds : d.Holds position pio base words) (r : PioRegister) :
    d.wordAt position r = some (words r) := by
  obtain ⟨block, hosts, values⟩ := holds
  rw [wordAt, file?, block?, hosts.found]
  exact values r

theorem replace {block' : β} {r : PioRegister} (hosts : d.Hosts position pio base block)
    (values : ∀ r, (file block).value? r.index = some (words r))
    (same : (file block).SameBut r.index (file block')) (span_eq : span block' = span block) :
    ∃ words', (d.replace position block').Holds position pio base words' ∧
      (∀ r', r' ≠ r → words' r' = words r') ∧
      (file block').value? r.index = some (words' r) := by
  have hosts' := hosts.replace same span_eq
  obtain ⟨words', block'', hosts'', values'⟩ := hosts'.holds
  cases hosts'.found.symm.trans hosts''.found
  refine ⟨words', ⟨block', hosts', values'⟩, fun r' ne => ?_, values' r⟩
  have kept := same.value?_eq r'.index fun eq => ne (PioRegister.index_injective eq)
  rw [values', values] at kept
  exact Option.some.inj kept

variable [LawfulBlock β]

theorem read (holds : d.Holds position pio base words) (window : Layout.IsWindow base)
    (r : PioRegister) :
    ∃ words', (RegisterSpace.read (Layout.address base r.index) d).2.Holds position pio base
        words' ∧ ∀ r', r' ≠ r → words' r' = words r' := by
  obtain ⟨block, hosts, values⟩ := holds
  rw [hosts.read_eq window]
  obtain ⟨words', holds', kept, -⟩ := replace hosts values
    (LawfulBlock.sameBut_read r.index block) (LawfulBlock.span_read r.index block)
  exact ⟨words', holds', kept⟩

theorem write (holds : d.Holds position pio base words) (window : Layout.IsWindow base)
    (r : PioRegister) (a : Alias) (w : MaskedWrite) :
    ∃ words', (RegisterSpace.write (Layout.address base r.index ||| a.bits) w d).2.Holds position
        pio base words' ∧ (∀ r', r' ≠ r → words' r' = words r') ∧
      ((RegisterSpace.write (Layout.address base r.index ||| a.bits) w d).1 = .ok () →
        words' r = r.kind.store w (words r)) := by
  obtain ⟨block, hosts, values⟩ := holds
  rw [hosts.write_eq window]
  obtain ⟨words', holds', kept, value⟩ := replace hosts values
    (LawfulBlock.sameBut_write r.index w block) (LawfulBlock.span_write r.index w block)
  refine ⟨words', holds', kept, fun done => ?_⟩
  cases wrote : (RegisterBlock.write r.index w block).1 with
  | error fault =>
    rw [wrote] at done
    cases done
  | ok _ =>
    obtain ⟨reg, registered, stored⟩ :=
      RegisterFile.value?_write (LawfulBlock.write_ok r.index w block wrote)
    obtain ⟨reg', registered', info⟩ := hosts.register r
    cases registered.symm.trans registered'
    have old : reg.value = words r := by
      have at_r := values r
      rw [RegisterFile.value?, registered] at at_r
      exact Option.some.inj at_r
    have kind : reg.kind = r.kind := congrArg RegisterInfo.kind info
    rw [value, old, kind] at stored
    exact Option.some.inj stored

theorem writeWord (holds : d.Holds position pio base words) (window : Layout.IsWindow base)
    (r : PioRegister) (value : Word) {address : Word}
    (plain : address = Layout.address base r.index) :
    ∃ words', (RegisterSpace.write address (.ofAddress address value) d).2.Holds position pio base
        words' ∧ (∀ r', r' ≠ r → words' r' = words r') ∧
      ((RegisterSpace.write address (.ofAddress address value) d).1 = .ok () →
        words' r = r.kind.store (Alias.plain.write value) (words r)) := by
  have small : r.index < 1024 := Nat.lt_trans r.index_lt (by decide)
  have alias_eq := Layout.ofAddress_address window small .plain
  have step := holds.write window r .plain (.ofAddress address value)
  rw [Layout.or_bits_plain, ← plain] at alias_eq step
  rw [MaskedWrite.ofAddress, alias_eq] at step ⊢
  exact step

theorem writeAll (holds : d.Holds position pio base words) (window : Layout.IsWindow base)
    (stores : List (PioRegister × Word)) :
    ∃ words', ((Transaction.writeAll (stores.map fun store =>
        (Layout.address base store.1.index, store.2))).run.run d).space.Holds position pio base
          words' ∧
      (∀ r, r ∉ stores.map Prod.fst → words' r = words r) ∧
      (((Transaction.writeAll (stores.map fun store =>
          (Layout.address base store.1.index, store.2))).run.run d).value = .ok () →
        (stores.map Prod.fst).Nodup → ∀ store ∈ stores, words' store.1 =
          store.1.kind.store (Alias.plain.write store.2) (words store.1)) := by
  induction stores generalizing d words with
  | nil =>
    refine ⟨words, holds, fun _ _ => rfl, fun _ _ store member => ?_⟩
    cases member
  | cons head rest ih =>
    obtain ⟨words₁, holds₁, kept₁, stored₁⟩ := holds.writeWord window head.1 head.2 rfl
    rw [List.map_cons, Transaction.run_writeAll_cons]
    simp only [Procedure.run]
    generalize RegisterSpace.write _ _ d = wrote at holds₁ stored₁ ⊢
    obtain ⟨e | _, d₁⟩ := wrote
    · refine ⟨words₁, holds₁, fun r apart => ?_, fun done => ?_⟩
      · simp only [List.map_cons, List.mem_cons, not_or] at apart
        exact kept₁ r apart.1
      · cases done
    · obtain ⟨words₂, holds₂, kept₂, stored₂⟩ := ih holds₁
      refine ⟨words₂, holds₂, fun r apart => ?_, fun done nodup store member => ?_⟩
      · simp only [List.map_cons, List.mem_cons, not_or] at apart
        rw [kept₂ r apart.2, kept₁ r apart.1]
      · obtain ⟨first, nodup⟩ := List.nodup_cons.mp nodup
        rcases List.mem_cons.mp member with rfl | member
        · rw [kept₂ store.1 first, stored₁ rfl]
        · have ne : store.1 ≠ head.1 := fun eq => first (eq ▸ List.mem_map_of_mem member)
          rw [stored₂ done nodup store member, kept₁ store.1 ne]

end Holds

end Dispatch

end PioBlock
