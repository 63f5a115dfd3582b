import PioBlock.Listing.Reading
import PioBlock.Proofs.Listing.Acceptance
import Mathlib.Data.List.Forall2

/-! Reading a listing. After any number of lines the progress is what was collected from the items
that the lines read as, so a listing is read to its end exactly when its lines read as items that
may follow one another. The collected entries of coherent items always make a program, and it is
the one that the items describe. -/

namespace PioBlock.Listing

/-- The items may stand one below the other, and their instructions fit. -/
structure Fits (items : List Item) : Prop where
  ordered : items.Pairwise Item.Allows
  code_fits : (items.filterMap Item.code?).length ≤ 32

theorem fits_nil : Fits [] := ⟨.nil, by decide⟩

theorem fits_append_iff {seen : List Item} {item : Item} :
    Fits (seen ++ [item]) ↔ Fits seen ∧ Admits seen item := by
  have codes : ((seen ++ [item]).filterMap Item.code?).length =
      (seen.filterMap Item.code?).length + item.code?.isSome.toNat := by
    rw [List.filterMap_append, List.length_append]
    cases item <;> rfl
  constructor
  · rintro ⟨ordered, code_fits⟩
    rw [codes] at code_fits
    obtain ⟨before, -, follows⟩ := List.pairwise_append.mp ordered
    refine ⟨⟨before, by omega⟩, fun a ha => follows a ha item (List.mem_singleton_self item), ?_⟩
    intro some_code
    rw [some_code, Bool.toNat_true] at code_fits
    omega
  · rintro ⟨⟨before, code_fits⟩, follows, room⟩
    refine ⟨List.pairwise_append.mpr ⟨before, List.pairwise_singleton _ _, ?_⟩, ?_⟩
    · intro a ha b hb
      rw [List.mem_singleton.mp hb]
      exact follows a ha
    · rw [codes]
      cases some_code : item.code?.isSome with
      | false => rwa [Bool.toNat_false, Nat.add_zero]
      | true => exact room some_code

theorem Fits.of_append {seen rest : List Item} (fits : Fits (seen ++ rest)) : Fits seen := by
  obtain ⟨ordered, code_fits⟩ := fits
  rw [List.filterMap_append, List.length_append] at code_fits
  exact ⟨(List.pairwise_append.mp ordered).1, by omega⟩

namespace Progress

theorem steps_eq_ok_iff {resource : String} {n : Nat} {seen : List Item} {lines : List (List Char)}
    {p : Progress} (fits : Fits seen) :
    steps resource ⟨n, .collect seen⟩ (lines.map .ok) = .ok p ↔
      ∃ items, List.Forall₂ Reads lines items ∧ Fits (seen ++ items) ∧
        p = ⟨n + lines.length, .collect (seen ++ items)⟩ := by
  -- The progress is always what was collected from the items seen, and those always fit.
  induction lines generalizing n seen with
  | nil =>
    constructor
    · intro h
      cases h
      exact ⟨[], .nil, by rwa [List.append_nil], by rw [List.append_nil]; rfl⟩
    · rintro ⟨items, reads, -, rfl⟩
      cases reads
      rw [List.append_nil]
      rfl
  | cons line lines ih =>
    rw [List.map_cons, steps, step]
    constructor
    · intro h
      cases accepted : (Entries.collect seen).accept (.ofText line) with
      | error c =>
        rw [accepted] at h
        cases h
      | ok e =>
        rw [accepted] at h
        obtain ⟨item, reads, admitted, rfl⟩ := (Entries.accept_eq_ok_iff fits.code_fits).mp accepted
        obtain ⟨items, rest, fits', rfl⟩ := (ih (fits_append_iff.mpr ⟨fits, admitted⟩)).mp h
        refine ⟨item :: items, .cons reads rest, ?_, ?_⟩
        · rwa [List.append_assoc] at fits'
        · rw [List.append_assoc, List.length_cons, List.singleton_append, Nat.add_assoc,
            Nat.add_comm 1]
    · rintro ⟨items, reads, fits', rfl⟩
      cases reads with
      | @cons _ item _ items first rest =>
        have split : seen ++ item :: items = seen ++ [item] ++ items := by
          rw [List.append_assoc, List.singleton_append]
        rw [split] at fits'
        have here := fits'.of_append
        have accepted := (Entries.accept_eq_ok_iff fits.code_fits).mpr
          ⟨item, first, (fits_append_iff.mp here).2, rfl⟩
        rw [accepted]
        refine (ih here).mpr ⟨items, rest, fits', ?_⟩
        rw [split, List.length_cons, Nat.add_assoc, Nat.add_comm 1]

theorem finish_eq_ok_iff {resource : String} {p : Progress} {program : Program} :
    p.finish resource = .ok program ↔
      p.entries.code ≠ [] ∧ p.entries.draft.build = .ok program := by
  rw [finish]
  by_cases empty : p.entries.code = []
  · simp [empty]
  · have some_code : p.entries.code.isEmpty = false := by simpa using empty
    rw [some_code, if_neg (by decide)]
    cases p.entries.draft.build <;> simp [empty]

end Progress

theorem Entries.build_draft {e : Entries} {origin wrap wrapTarget : Option Slot}
    (id_ne : e.id ≠ some "") (start : e.origin.join = origin.map (·.val))
    (last : e.wrap = wrap.map (·.val)) (first : e.wrapTarget = wrapTarget.map (·.val))
    (side : (e.sideSet.getD .none).count ≤ (e.sideSet.getD .none).maxCount)
    (pos : 0 < e.code.length) (le : e.code.length ≤ 32) :
    ∃ p, e.draft.build = .ok p ∧ p.id = e.id ∧ p.origin = origin ∧
      p.wrap = wrap.getD (Draft.lastSlot p.origin e.code.length) ∧
      p.wrapTarget = wrapTarget.getD (p.origin.getD 0) ∧
      p.sideSet = e.sideSet.getD .none ∧ p.instructions = e.code := by
  have slot : ∀ refusal (given : Option Slot),
      Draft.slot? refusal (given.map (·.val)) = .ok given := fun refusal given =>
    Draft.slot?_eq_ok_iff.mpr rfl
  have built : ∃ p, e.draft.build = .ok p := by
    simp only [draft, Draft.build, start, last, first, slot, id_ne, side, pos, le, ne_eq,
      not_false_eq_true, ↓reduceDIte]
    exact ⟨_, rfl⟩
  obtain ⟨p, built⟩ := built
  refine ⟨p, built, ?_⟩
  simp only [draft, Draft.build, start, last, first, slot, id_ne, side, pos, le, ne_eq,
    not_false_eq_true, ↓reduceDIte] at built
  cases built
  exact ⟨rfl, rfl, rfl, rfl, rfl, rfl⟩

theorem Describes.unique {items : List Item} {p q : Program} (hp : Describes items p)
    (hq : Describes items q) : p = q := by
  obtain ⟨id, origin, wrap, wrapTarget, sideSet, instructions⟩ := hp
  obtain ⟨id', origin', wrap', wrapTarget', sideSet', instructions'⟩ := hq
  rw [← origin'] at origin
  rw [← id'] at id
  rw [origin, ← wrap'] at wrap
  rw [origin, ← wrapTarget'] at wrapTarget
  rw [← sideSet'] at sideSet
  rw [← instructions'] at instructions
  cases p
  cases q
  cases id
  cases origin
  cases wrap
  cases wrapTarget
  cases sideSet
  cases instructions
  rfl

theorem build_collect (items : List Item) (pos : 0 < (items.filterMap Item.code?).length)
    (le : (items.filterMap Item.code?).length ≤ 32) :
    ∃ p, (Entries.collect items).draft.build = .ok p ∧ Describes items p := by
  have id_ne : (Entries.collect items).id ≠ some "" := by
    intro empty
    obtain ⟨item, -, named⟩ := List.exists_of_findSome?_eq_some empty
    cases item <;> simp at named
    next id ne => exact ne named
  have side : ((Entries.collect items).sideSet.getD .none).count ≤
      ((Entries.collect items).sideSet.getD .none).maxCount := by
    cases sides : (Entries.collect items).sideSet with
    | none => decide
    | some s =>
      obtain ⟨item, -, sided⟩ := List.exists_of_findSome?_eq_some sides
      cases item <;> simp at sided
      next t fits =>
        subst sided
        exact fits
  have start : (Entries.collect items).origin.join =
      (items.findSome? Item.origin?).join.map (·.val) := by
    rw [Entries.collect]
    cases items.findSome? Item.origin? <;> rfl
  obtain ⟨p, built, id, origin, wrap, wrapTarget, sideSet, instructions⟩ :=
    Entries.build_draft id_ne start rfl rfl side pos le
  exact ⟨p, built, id, origin, wrap, wrapTarget, sideSet, instructions⟩

/-- A text is read as a program exactly when its lines read as coherent items, and then as the
program that the items describe. -/
theorem read_eq_ok_iff (resource text : String) :
    ((∃ p, read resource text = .ok p) ↔
      ∃ items, List.Forall₂ Reads (textLines text.toList) items ∧ Coherent items) ∧
    ∀ p, read resource text = .ok p ↔
      ∃ items, List.Forall₂ Reads (textLines text.toList) items ∧ Coherent items ∧
        Describes items p := by
  have each : ∀ p, read resource text = .ok p ↔
      ∃ items, List.Forall₂ Reads (textLines text.toList) items ∧ Coherent items ∧
        Describes items p := by
    intro p
    rw [read, readText, readLines, bind_eq_ok_iff]
    change (∃ progress, Progress.steps resource ⟨0, .collect []⟩ _ = .ok progress ∧ _) ↔ _
    simp only [Progress.steps_eq_ok_iff fits_nil, Progress.finish_eq_ok_iff, List.nil_append]
    constructor
    · rintro ⟨_, ⟨items, reads, fits, rfl⟩, some_code, built⟩
      have pos : 0 < (items.filterMap Item.code?).length := List.length_pos_iff.mpr some_code
      obtain ⟨q, built', describes⟩ := build_collect items pos fits.code_fits
      cases built.symm.trans built'
      exact ⟨items, reads, ⟨fits.ordered, pos, fits.code_fits⟩, describes⟩
    · rintro ⟨items, reads, coherent, describes⟩
      obtain ⟨q, built, describes'⟩ := build_collect items coherent.some_code coherent.code_fits
      rw [describes.unique describes']
      exact ⟨_, ⟨items, reads, ⟨coherent.ordered, coherent.code_fits⟩, rfl⟩,
        List.length_pos_iff.mp coherent.some_code, built⟩
  refine ⟨?_, each⟩
  constructor
  · rintro ⟨p, h⟩
    obtain ⟨items, reads, coherent, -⟩ := (each p).mp h
    exact ⟨items, reads, coherent⟩
  · rintro ⟨items, reads, coherent⟩
    obtain ⟨p, -, describes⟩ := build_collect items coherent.some_code coherent.code_fits
    exact ⟨p, (each p).mpr ⟨items, reads, coherent, describes⟩⟩

end PioBlock.Listing
