import PioBlock.Bench
import PioBlock.Proofs.Addressing

/-! Blocks that may fail but do no harm. An access that fails leaves the words of a lawful block
as they were, a write that succeeds does what its register file does, and a read touches no other
register. Plain register files are lawful, and so are the blocks of a bench, whatever is planned
and scripted for them. -/

namespace PioBlock

namespace RegisterFile

def infos (f : RegisterFile) : List RegisterInfo := f.registers.map (·.toRegisterInfo)

/-- The two files differ at most in the word of one register. -/
structure SameBut (index : Nat) (f g : RegisterFile) : Prop where
  base_eq : g.base = f.base
  infos_eq : g.infos = f.infos
  value?_eq : ∀ j, j ≠ index → g.value? j = f.value? j

theorem SameBut.refl (index : Nat) (f : RegisterFile) : SameBut index f f :=
  ⟨rfl, rfl, fun _ _ => rfl⟩

theorem SameBut.size_eq {index : Nat} {f g : RegisterFile} (same : SameBut index f g) :
    g.size = f.size := by
  have lengths := congrArg List.length same.infos_eq
  simpa only [infos, List.length_map, size] using lengths

theorem sameBut_update {f g : RegisterFile} {index : Nat} (change : Register → Register)
    (info : ∀ r, (change r).toRegisterInfo = r.toRegisterInfo)
    (h : f.update index change = .ok g) : SameBut index f g := by
  unfold update at h
  split at h
  · next r hr =>
    cases h
    refine ⟨rfl, ?_, fun j hj => ?_⟩
    · apply List.ext_getElem?
      intro j
      by_cases hj : index = j
      · subst hj
        obtain ⟨lt, hr⟩ := List.getElem?_eq_some_iff.mp hr
        simp [infos, lt, info, hr]
      · simp [infos, List.getElem?_set_ne hj]
    · simp [value?, List.getElem?_set_ne (Ne.symm hj)]
  · cases h

theorem sameBut_write {f g : RegisterFile} {index : Nat} {w : MaskedWrite}
    (h : f.write index w = .ok g) : SameBut index f g :=
  sameBut_update (·.write w) (fun _ => rfl) h

theorem sameBut_store {f g : RegisterFile} {index : Nat} {value : Word}
    (h : f.store index value = .ok g) : SameBut index f g :=
  sameBut_update ({ · with value := value }) (fun _ => rfl) h

theorem value?_write {f g : RegisterFile} {index : Nat} {w : MaskedWrite}
    (h : f.write index w = .ok g) :
    ∃ r, f.registers[index]? = some r ∧ g.value? index = some (r.kind.store w r.value) := by
  unfold write update at h
  split at h
  · next r hr =>
    cases h
    have lt := (List.getElem?_eq_some_iff.mp hr).1
    exact ⟨r, hr, by simp [value?, lt, Register.write]⟩
  · cases h

end RegisterFile

open RegisterBlock

class LawfulBlock (β : Type) [RegisterBlock β] : Prop where
  span_read : ∀ index (b : β), span (read index b).2 = span b
  span_write : ∀ index w (b : β), span (write index w b).2 = span b
  sameBut_read : ∀ index (b : β), (file b).SameBut index (file (read index b).2)
  write_ok : ∀ index w (b : β), (write index w b).1 = .ok () →
    (file b).write index w = .ok (file (write index w b).2)
  write_error : ∀ index w (b : β) fault, (write index w b).1 = .error fault →
    file (write index w b).2 = file b

namespace LawfulBlock

theorem sameBut_write {β : Type} [RegisterBlock β] [LawfulBlock β] (index : Nat) (w : MaskedWrite)
    (b : β) : (file b).SameBut index (file (write index w b).2) := by
  cases h : (write index w b).1 with
  | ok _ => exact RegisterFile.sameBut_write (write_ok index w b h)
  | error fault =>
    rw [write_error index w b fault h]
    exact .refl _ _

end LawfulBlock

instance : LawfulBlock RegisterFile where
  span_read _ _ := rfl
  span_write index w f := by
    change RegisterFile.size (RegisterBlock.write index w f).2 = f.size
    simp only [RegisterBlock.write]
    cases h : f.write index w with
    | ok g => exact RegisterFile.write_size h
    | error fault => rfl
  sameBut_read index f := .refl index f
  write_ok index w f h := by
    simp only [RegisterBlock.write] at h ⊢
    cases written : f.write index w with
    | ok g => rfl
    | error fault => simp [written] at h
  write_error index w f fault h := by
    simp only [RegisterBlock.write] at h ⊢
    cases written : f.write index w with
    | ok g => simp [written] at h
    | error fault => rfl

namespace BenchBlock

theorem follow_sameBut (b : BenchBlock) (register : Nat) :
    b.file.SameBut register (b.follow register).file ∧ (b.follow register).span = b.span := by
  unfold follow
  split
  · exact ⟨.refl _ _, rfl⟩
  · split
    · next stored => exact ⟨RegisterFile.sameBut_store stored, rfl⟩
    · exact ⟨.refl _ _, rfl⟩

theorem read_file (b : BenchBlock) (register : Nat) :
    (BenchBlock.read register b).2.file = (b.follow register).file ∧
      (BenchBlock.read register b).2.span = (b.follow register).span := by
  have file : ((b.follow register).meetFaults register .read).2.file =
    (b.follow register).file := rfl
  have span : ((b.follow register).meetFaults register .read).2.span =
    (b.follow register).span := rfl
  unfold BenchBlock.read
  revert file span
  generalize (b.follow register).meetFaults register .read = met
  obtain ⟨_ | message, c⟩ := met <;> exact fun file span => ⟨file, span⟩

theorem write_cases (b : BenchBlock) (register : Nat) (w : MaskedWrite) :
    (BenchBlock.write register w b).2.span = b.span ∧
    ((BenchBlock.write register w b).1 = .ok () ∧
        b.file.write register w = .ok (BenchBlock.write register w b).2.file ∨
      ∃ fault, (BenchBlock.write register w b).1 = .error fault ∧
        (BenchBlock.write register w b).2.file = b.file) := by
  have file : (b.meetFaults register .write).2.file = b.file := rfl
  have span : (b.meetFaults register .write).2.span = b.span := rfl
  unfold BenchBlock.write
  revert file span
  generalize b.meetFaults register .write = met
  obtain ⟨_ | message, c⟩ := met <;> intro file span <;> simp only at file span ⊢
  · rw [← file]
    cases written : c.file.write register w with
    | ok g => exact ⟨span, Or.inl ⟨rfl, rfl⟩⟩
    | error fault => exact ⟨span, Or.inr ⟨fault, rfl, rfl⟩⟩
  · exact ⟨span, Or.inr ⟨_, rfl, file⟩⟩

theorem span_eq {b c : BenchBlock} (span : c.span = b.span) {index : Nat}
    (same : b.file.SameBut index c.file) : RegisterBlock.span c = RegisterBlock.span b := by
  change c.span.getD c.file.size = b.span.getD b.file.size
  rw [span, same.size_eq]

end BenchBlock

instance : LawfulBlock BenchBlock where
  span_read register b := by
    obtain ⟨file, span⟩ := b.read_file register
    obtain ⟨same, span'⟩ := b.follow_sameBut register
    rw [← file] at same
    exact BenchBlock.span_eq (span.trans span') same
  span_write register w b := by
    obtain ⟨span, ⟨-, written⟩ | ⟨fault, -, file⟩⟩ := b.write_cases register w
    · exact BenchBlock.span_eq span (RegisterFile.sameBut_write written)
    · have same : b.file.SameBut register (BenchBlock.write register w b).2.file := by
        rw [file]
        exact .refl _ _
      exact BenchBlock.span_eq span same
  sameBut_read register b := by
    have same := (b.follow_sameBut register).1
    rwa [← (b.read_file register).1] at same
  write_ok register w b h := by
    obtain ⟨-, ⟨-, written⟩ | ⟨fault, failed, -⟩⟩ := b.write_cases register w
    · exact written
    · cases failed.symm.trans h
  write_error register w b fault h := by
    obtain ⟨-, ⟨done, -⟩ | ⟨fault, -, file⟩⟩ := b.write_cases register w
    · cases done.symm.trans h
    · exact file

end PioBlock
