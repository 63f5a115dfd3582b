import PioBlock.Proofs.FlatMemory
import Mathlib.Logic.Function.Basic

/-! A PIO block among plain register files. No access to its registers fails: a read gives the word
and changes nothing, and a write stores one word, decided by the kind of the register. -/

namespace PioBlock.Dispatch

variable {d : Dispatch RegisterFile} {position pio : Nat} {base : Word} {block : RegisterFile}
  {words : PioRegister → Word}

/-- Where the blocks lie, and what is fixed about their registers. -/
def shape (d : Dispatch RegisterFile) : List (Word × List RegisterInfo) :=
  d.blocks.map fun f => (f.base, f.infos)

theorem hosts_of_shape
    (found : d.shape[position]? = some (base, PioRegister.all.map (·.info pio)))
    (window : Layout.IsWindow base)
    (apart : ∀ earlier ∈ d.shape.take position, Layout.IsWindow earlier.1 ∧ base ≠ earlier.1 ∧
      earlier.2.length ≤ 1024) :
    ∃ block, d.Hosts position pio base block := by
  obtain ⟨f, at_position, same⟩ := Option.map_eq_some_iff.mp (List.getElem?_map.symm.trans found)
  obtain ⟨base_eq, infos_eq⟩ := Prod.mk.inj same
  have size : f.size = PioRegister.count := by
    have lengths := congrArg List.length infos_eq
    rwa [List.length_map, PioRegister.length_all, RegisterFile.infos, List.length_map] at lengths
  refine ⟨f, at_position, base_eq, infos_eq, Nat.le_of_eq size.symm, ?_⟩
  intro earlier member r a
  rw [shape, ← List.map_take] at apart
  obtain ⟨window', ne, small⟩ := apart _ (List.mem_map_of_mem member)
  have bound : r.index < 1024 := Nat.lt_trans r.index_lt (by decide)
  have range := Layout.toNat_address_or_bits window bound a
  have past := Layout.le_select_of_ne window window' ne range.1 range.2
  rw [RegisterFile.infos, List.length_map] at small
  exact decide_eq_false (Nat.not_lt.mpr (Nat.le_trans small (Nat.le_trans (by decide) past)))

theorem Hosts.selects (hosts : d.Hosts position pio base block) (window : Layout.IsWindow base)
    (r : PioRegister) (a : Alias) :
    d.Selects (Layout.address base r.index ||| a.bits) position r.index := by
  have located := hosts.locate window r a
  obtain ⟨q, j, selects⟩ | misses := d.selects_or_misses (Layout.address base r.index ||| a.bits)
  · obtain ⟨f, -, located'⟩ := selects.locate
    cases located.symm.trans located'
    exact selects
  · cases located.symm.trans misses.locate

namespace Holds

theorem register?_eq (holds : d.Holds position pio base words) (r : PioRegister) :
    d.register? position r.index = some { r.info pio with value := words r } := by
  obtain ⟨block, hosts, values⟩ := holds
  obtain ⟨reg, registered, info⟩ := hosts.register r
  have value := values r
  rw [RegisterFile.value?, registered] at value
  refine register?_eq_some.mpr ⟨block, hosts.found, registered.trans ?_⟩
  rw [← info, ← Option.some.inj value]

theorem read_eq (holds : d.Holds position pio base words) (window : Layout.IsWindow base)
    (r : PioRegister) :
    RegisterSpace.read (Layout.address base r.index) d = (.ok (words r), d) := by
  obtain ⟨block, hosts, -⟩ := id holds
  have selects := hosts.selects window r .plain
  rw [Layout.or_bits_plain] at selects
  exact selects.read_eq (holds.register?_eq r)

theorem write_eq (holds : d.Holds position pio base words) (window : Layout.IsWindow base)
    (r : PioRegister) (a : Alias) (w : MaskedWrite) :
    RegisterSpace.write (Layout.address base r.index ||| a.bits) w d =
      (.ok (), d.storeAt position r.index (r.kind.store w (words r))) := by
  obtain ⟨block, hosts, -⟩ := id holds
  exact (hosts.selects window r a).write_eq (holds.register?_eq r) w

theorem writeWord_eq (holds : d.Holds position pio base words) (window : Layout.IsWindow base)
    {r : PioRegister} (kind : r.kind = .readWrite) (value : Word) :
    RegisterSpace.write (Layout.address base r.index)
        (.ofAddress (Layout.address base r.index) value) d =
      (.ok (), d.storeAt position r.index value) := by
  have named := Layout.ofAddress_address window (Nat.lt_trans r.index_lt (by decide)) .plain
  have step := holds.write_eq window r .plain (Alias.plain.write value)
  rw [Layout.or_bits_plain] at named step
  rw [MaskedWrite.ofAddress, named, step, kind, RegisterKind.store, Alias.apply_write_plain]

theorem storeAt (holds : d.Holds position pio base words) (r : PioRegister) (value : Word) :
    (d.storeAt position r.index value).Holds position pio base (Function.update words r value) := by
  obtain ⟨f, at_position, at_index, put⟩ := storeAt_of_register? (holds.register?_eq r) value
  have stored := RegisterFile.store_of_getElem? at_index value
  have there := (List.getElem?_eq_some_iff.mp at_index).1
  obtain ⟨block, hosts, values⟩ := holds
  cases hosts.found.symm.trans at_position
  have same := RegisterFile.sameBut_store stored
  obtain ⟨words', holds', kept, here⟩ := replace hosts values same same.size_eq
  have updated : words' = Function.update words r value := by
    funext r'
    by_cases eq : r' = r
    · subst eq
      rw [Function.update_self]
      simpa [RegisterBlock.file, RegisterFile.value?, there] using here.symm
    · rw [Function.update_of_ne eq, kept r' eq]
  rw [put, ← updated]
  exact holds'

theorem writeAll_value_eq_ok (holds : d.Holds position pio base words)
    (window : Layout.IsWindow base) (stores : List (PioRegister × Word)) :
    ((Transaction.writeAll (stores.map fun store =>
      (Layout.address base store.1.index, store.2))).run.run d).value = .ok () := by
  induction stores generalizing d words with
  | nil => rfl
  | cons head rest ih =>
    have first := holds.write_eq window head.1 .plain
      (.ofAddress (Layout.address base head.1.index) head.2)
    rw [Layout.or_bits_plain] at first
    rw [List.map_cons, Transaction.run_writeAll_cons]
    simp only [Procedure.run, first]
    exact ih (holds.storeAt _ _)

end Holds

end PioBlock.Dispatch
