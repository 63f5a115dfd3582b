import PioBlock.Proofs.Listing.LineForms

/-! Accepting one line. The entries of a listing are collected from the items of the lines before,
and one more line is accepted exactly when it reads as an item that may follow those: a directive
is refused as a duplicate where the collected entry is there, which is where an item of its kind
is. -/

namespace PioBlock.Listing

open Numeral

theorem bind_eq_ok_iff {ε α β : Type} {x : Except ε α} {f : α → Except ε β} {b : β} :
    x >>= f = .ok b ↔ ∃ a, x = .ok a ∧ f a = .ok b := by
  cases x with
  | error e => exact ⟨nofun, fun ⟨_, h, _⟩ => nomatch h⟩
  | ok a =>
    constructor
    · exact fun h => ⟨a, rfl, h⟩
    · rintro ⟨a', ok, h⟩
      cases ok
      exact h

theorem mapError_eq_ok_iff {ε ε' α : Type} {x : Except ε α} {f : ε → ε'} {a : α} :
    x.mapError f = .ok a ↔ x = .ok a := by
  cases x <;> simp [Except.mapError]

theorem readNumber_eq_ok_iff {text : List Char} {value : Int} :
    readNumber text = .ok value ↔ Decimal text value := by
  rw [← readInt?_eq_some_iff, readNumber]
  cases readInt? text <;> simp

theorem readArgument_eq_ok_iff {keyword : Keyword} {low high : Int} {argument : List Char}
    {value : Int} :
    readArgument keyword low high argument = .ok value ↔
      ∃ text, Tokens argument [text] ∧ Decimal text value ∧ low ≤ value ∧ value ≤ high := by
  simp only [← words_eq_iff]
  unfold readArgument
  split
  · next none => simp [none]
  · next many => simp [many]
  · next text one =>
    rw [bind_eq_ok_iff]
    simp only [one, readNumber_eq_ok_iff, List.cons.injEq, and_true, exists_eq_left']
    constructor
    · rintro ⟨read, decimal, h⟩
      split at h
      · next inside =>
        cases h
        exact ⟨decimal, inside⟩
      · cases h
    · rintro ⟨decimal, inside⟩
      exact ⟨value, decimal, if_pos inside⟩

theorem toNatural_eq_ok_iff {keyword : Keyword} {high value : Int} {n : Nat} :
    toNatural keyword high value = .ok n ↔ value = n ∧ value ≤ high := by
  rw [toNatural]
  by_cases inside : 0 ≤ value ∧ value ≤ high
  · rw [if_pos inside, Except.ok.injEq]
    omega
  · rw [if_neg inside]
    refine ⟨nofun, fun ⟨same, le⟩ => absurd ⟨?_, le⟩ inside⟩
    omega

theorem toWord_eq_ok_iff {text : List Char} {value : Int} {i : Instruction} :
    toWord text value = .ok i ↔ value = i.toNat := by
  have lt := i.isLt
  rw [toWord]
  by_cases fits : 0 ≤ value ∧ value < 0x10000
  · rw [if_pos fits, Except.ok.injEq, ← BitVec.toNat_inj, BitVec.toNat_ofNat]
    omega
  · rw [if_neg fits]
    refine ⟨nofun, fun same => absurd ?_ fits⟩
    omega

theorem readSlot_eq_ok_iff {keyword : Keyword} {argument : List Char} {n : Nat} :
    readSlot keyword argument = .ok n ↔
      ∃ text, Tokens argument [text] ∧ Decimal text n ∧ n < 32 := by
  simp only [readSlot, bind_eq_ok_iff, readArgument_eq_ok_iff, toNatural_eq_ok_iff]
  constructor
  · rintro ⟨value, ⟨text, one, decimal, low, high⟩, rfl, -⟩
    exact ⟨text, one, decimal, by omega⟩
  · rintro ⟨text, one, decimal, lt⟩
    exact ⟨n, ⟨text, one, decimal, by omega, by omega⟩, rfl, by omega⟩

theorem readFlags_eq_ok_iff {room : Nat} {isOptional pindirs : Bool} {flags : List (List Char)}
    {o p : Bool} :
    readFlags room isOptional pindirs flags = .ok (o, p) ↔
      flags.length ≤ room ∧ (∀ f ∈ flags, f = "opt".toList ∨ f = "pindirs".toList) ∧
      (o = true ↔ isOptional = true ∨ "opt".toList ∈ flags) ∧
      (p = true ↔ pindirs = true ∨ "pindirs".toList ∈ flags) := by
  induction flags generalizing room isOptional pindirs with
  | nil =>
    simp only [readFlags, Except.ok.injEq, Prod.mk.injEq, List.length_nil, Nat.zero_le,
      List.not_mem_nil, or_false, true_and, ← Bool.eq_iff_iff, eq_comm]
    simp
  | cons flag rest ih =>
    cases room with
    | zero => simp [readFlags]
    | succ room =>
      rw [readFlags]
      by_cases opt : flag = "opt".toList
      · subst opt
        rw [if_pos rfl, ih]
        simp
      · rw [if_neg opt]
        by_cases dirs : flag = "pindirs".toList
        · subst dirs
          rw [if_pos rfl, ih]
          simp
        · rw [if_neg dirs]
          constructor
          · exact nofun
          · rintro ⟨-, known, -⟩
            exact absurd (known flag (List.mem_cons_self ..)) (not_or.mpr ⟨opt, dirs⟩)

theorem readSideSet_eq_ok_iff {argument : List Char} {s : SideSet} :
    readSideSet argument = .ok s ↔ ∃ count flags, Tokens argument (count :: flags) ∧
      Decimal count s.count ∧ flags.length ≤ 2 ∧
      (∀ f ∈ flags, f = "opt".toList ∨ f = "pindirs".toList) ∧
      (s.isOptional = true ↔ "opt".toList ∈ flags) ∧
      (s.pindirs = true ↔ "pindirs".toList ∈ flags) ∧ s.count ≤ s.maxCount := by
  simp only [← words_eq_iff]
  unfold readSideSet
  split
  · next none => simp [none]
  · next count flags some =>
    simp only [some, bind_eq_ok_iff, readNumber_eq_ok_iff, Prod.exists, readFlags_eq_ok_iff,
      toNatural_eq_ok_iff, List.cons.injEq, Bool.false_eq_true, false_or]
    constructor
    · rintro ⟨value, decimal, o, p, ⟨few, known, isOptional, pindirs⟩, n, ⟨rfl, high⟩, h⟩
      cases h
      refine ⟨count, flags, ⟨rfl, rfl⟩, decimal, few, known, isOptional, pindirs, ?_⟩
      simp only [SideSet.maxCount]
      cases o <;> simp at high ⊢ <;> omega
    · rintro ⟨_, _, ⟨rfl, rfl⟩, decimal, few, known, isOptional, pindirs, fits⟩
      refine ⟨s.count, decimal, s.isOptional, s.pindirs, ⟨few, known, isOptional, pindirs⟩,
        s.count, ⟨rfl, ?_⟩, rfl⟩
      rw [SideSet.maxCount] at fits
      cases o : s.isOptional <;> simp [o] at fits ⊢ <;> omega

theorem exists_mark (text : List Char) :
    ∃ mark ∈ [[], "0x".toList, "0X".toList], text = mark ++ wordDigits text := by
  unfold wordDigits
  split
  · exact ⟨"0x".toList, by simp, rfl⟩
  · exact ⟨"0X".toList, by simp, rfl⟩
  · exact ⟨[], by simp, rfl⟩

theorem wordDigits_append {mark digits : List Char} {value : Nat}
    (marks : mark ∈ [[], "0x".toList, "0X".toList]) (spells : Spells hexDigit? 16 digits value) :
    wordDigits (mark ++ digits) = digits := by
  simp only [List.mem_cons, List.not_mem_nil, or_false] at marks
  rcases marks with rfl | rfl | rfl
  · -- No digit is the letter of a mark.
    change wordDigits digits = digits
    unfold wordDigits
    split
    · next rest start =>
      obtain ⟨d, digit⟩ := spells.exists_digit (c := 'x') (by simp)
      cases digit
    · next rest start =>
      obtain ⟨d, digit⟩ := spells.exists_digit (c := 'X') (by simp)
      cases digit
    · rfl
  · rfl
  · rfl

theorem readWord_eq_ok_iff {text : List Char} {i : Instruction} :
    readWord text = .ok i ↔ ∃ mark digits, mark ∈ [[], "0x".toList, "0X".toList] ∧
      Spells hexDigit? 16 digits i.toNat ∧ text = mark ++ digits := by
  unfold readWord
  constructor
  · intro h
    obtain ⟨mark, marks, split⟩ := exists_mark text
    cases read : readHex? (wordDigits text) with
    | none =>
      rw [read] at h
      cases h
    | some value =>
      simp only [read, toWord_eq_ok_iff, Nat.cast_inj] at h
      subst h
      exact ⟨mark, wordDigits text, marks, readHex?_eq_some_iff.mp read, split⟩
  · rintro ⟨mark, digits, marks, spells, rfl⟩
    rw [wordDigits_append marks spells, readHex?_eq_some_iff.mpr spells]
    exact toWord_eq_ok_iff.mpr rfl

theorem isBlank_eq_false_of_isNameRest {c : Char} (h : isNameRest c = true) :
    isBlank c = false := by
  have code : 48 ≤ c.toNat ∧ c.toNat ≤ 57 ∨ 65 ≤ c.toNat ∧ c.toNat ≤ 90 ∨ c.toNat = 95 ∨
      97 ≤ c.toNat ∧ c.toNat ≤ 122 := by
    have kinds : (((c.isUpper || c.isLower) || c.isDigit) || c == '_') = true := h
    rw [Bool.or_eq_true, Bool.or_eq_true, Bool.or_eq_true, beq_iff_eq] at kinds
    rcases kinds with ((upper | lower) | digit) | rfl
    · have range : 65 ≤ c.toNat ∧ c.toNat ≤ 90 := of_decide_eq_true upper
      exact Or.inr (Or.inl range)
    · have range : (decide (97 ≤ c.toNat) && decide (c.toNat ≤ 122)) = true := lower
      rw [Bool.and_eq_true, decide_eq_true_eq, decide_eq_true_eq] at range
      exact Or.inr (Or.inr (Or.inr range))
    · have range : (decide (48 ≤ c.toNat) && decide (c.toNat ≤ 57)) = true := digit
      rw [Bool.and_eq_true, decide_eq_true_eq, decide_eq_true_eq] at range
      exact Or.inl range
    · exact Or.inr (Or.inr (Or.inl rfl))
  exact isBlank_eq_false_of_visible (by omega)

theorem words_of_isIdentifier {text : List Char} (h : IsIdentifier text) : words text = [text] := by
  obtain ⟨c, rest, rfl, first, others⟩ := h
  refine words_of_no_blank (List.cons_ne_nil c rest) fun d hd => ?_
  rcases List.mem_cons.mp hd with rfl | hd
  · exact isBlank_eq_false_of_isNameRest (isNameRest_of_isNameStart first)
  · exact isBlank_eq_false_of_isNameRest (others d hd)

theorem ofName?_eq_some_iff {name : List Char} {k : Keyword} :
    Keyword.ofName? name = some k ↔ name = k.name.toList := by
  constructor
  · intro h
    have found := List.find?_some h
    exact (beq_iff_eq.mp found).symm
  · rintro rfl
    exact Keyword.ofName?_name k

theorem ofName?_eq_none_iff {name : List Char} :
    Keyword.ofName? name = none ↔ ∀ k : Keyword, name ≠ k.name.toList := by
  constructor
  · intro h k named
    rw [ofName?_eq_some_iff.mpr named] at h
    cases h
  · intro unknown
    cases h : Keyword.ofName? name with
    | none => rfl
    | some k => exact absurd (ofName?_eq_some_iff.mp h) (unknown k)

/-- One more item may follow those seen, and if it is an instruction there is a slot for it. -/
structure Admits (seen : List Item) (item : Item) : Prop where
  follows : ∀ a ∈ seen, a.Allows item
  room : item.code?.isSome = true → (seen.filterMap Item.code?).length < 32

theorem admits_nothing (seen : List Item) : Admits seen .nothing :=
  ⟨fun a _ => by cases a <;> trivial, nofun⟩

theorem admits_iff_findSome? {α : Type} {seen : List Item} {item : Item} {part? : Item → Option α}
    (clash : ∀ a : Item, a.Allows item ↔ part? a = none) (no_code : item.code? = none) :
    Admits seen item ↔ seen.findSome? part? = none := by
  rw [List.findSome?_eq_none_iff]
  constructor
  · exact fun h a ha => (clash a).mp (h.follows a ha)
  · intro h
    refine ⟨fun a ha => (clash a).mpr (h a ha), fun some_code => ?_⟩
    rw [no_code] at some_code
    cases some_code

theorem admits_sideSet_iff {seen : List Item} {s : SideSet} {fits : s.count ≤ s.maxCount} :
    Admits seen (.sideSet s fits) ↔
      seen.findSome? Item.sideSet? = none ∧ seen.filterMap Item.code? = [] := by
  rw [List.findSome?_eq_none_iff, List.filterMap_eq_nil_iff]
  have clash : ∀ a : Item, a.Allows (.sideSet s fits) ↔ a.sideSet? = none ∧ a.code? = none := by
    intro a
    cases a <;> simp [Item.Allows, Item.sideSet?, Item.code?]
  constructor
  · intro h
    exact ⟨fun a ha => ((clash a).mp (h.follows a ha)).1,
      fun a ha => ((clash a).mp (h.follows a ha)).2⟩
  · rintro ⟨once, before⟩
    exact ⟨fun a ha => (clash a).mpr ⟨once a ha, before a ha⟩, nofun⟩

theorem admits_code_iff {seen : List Item} {i : Instruction} :
    Admits seen (.code i) ↔ (seen.filterMap Item.code?).length < 32 :=
  ⟨fun h => h.room rfl, fun h => ⟨fun a _ => by cases a <;> trivial, fun _ => h⟩⟩

namespace Entries

def collect (items : List Item) : Entries where
  id := items.findSome? Item.name?
  origin := (items.findSome? Item.origin?).map (·.map (·.val))
  wrap := (items.findSome? Item.wrap?).map (·.val)
  wrapTarget := (items.findSome? Item.wrapTarget?).map (·.val)
  sideSet := items.findSome? Item.sideSet?
  code := items.filterMap Item.code?

theorem collect_append (seen : List Item) (item : Item) :
    collect (seen ++ [item]) =
      ⟨(collect seen).id.or item.name?,
        (collect seen).origin.or (item.origin?.map (·.map (·.val))),
        (collect seen).wrap.or (item.wrap?.map (·.val)),
        (collect seen).wrapTarget.or (item.wrapTarget?.map (·.val)),
        (collect seen).sideSet.or item.sideSet?, (collect seen).code ++ item.code?.toList⟩ := by
  simp only [collect, List.findSome?_append, List.findSome?_singleton, List.filterMap_append,
    Option.map_or]
  cases item <;> rfl

variable {seen : List Item} {e : Entries}

theorem once_eq_ok_iff {α : Type} {keyword : Keyword} {entry : Option α} {u : Unit} :
    once keyword entry = .ok u ↔ entry = none := by
  cases entry <;> simp [once]

theorem push_eq_ok_iff {i : Instruction} (len : (collect seen).code.length ≤ 32) :
    (collect seen).push i = .ok e ↔
      Admits seen (.code i) ∧ e = collect (seen ++ [.code i]) := by
  have len' : (seen.filterMap Item.code?).length ≤ 32 := len
  rw [push, admits_code_iff, collect_append]
  change (if (seen.filterMap Item.code?).length = 32 then _ else _) = _ ↔ _
  by_cases full : (seen.filterMap Item.code?).length = 32
  · rw [if_pos full]
    exact ⟨nofun, fun ⟨room, _⟩ => absurd full (by omega)⟩
  · rw [if_neg full]
    have room : (seen.filterMap Item.code?).length < 32 := by omega
    simp [room, eq_comm]

theorem acceptSetting_origin_eq_ok_iff {argument : List Char} :
    (collect seen).acceptSetting .origin argument = .ok e ↔
      ∃ item, Asks .origin argument item ∧ Admits seen item ∧ e = collect (seen ++ [item]) := by
  have admits : ∀ slot, Admits seen (.origin slot) ↔ (collect seen).origin = none := fun slot =>
    (admits_iff_findSome? (fun a => by cases a <;> simp [Item.Allows]) rfl).trans
      Option.map_eq_none_iff.symm
  simp only [acceptSetting, bind_eq_ok_iff, once_eq_ok_iff, readArgument_eq_ok_iff]
  constructor
  · rintro ⟨_, fresh, value, ⟨text, one, decimal, low, high⟩, h⟩
    cases h
    by_cases natural : 0 ≤ value
    · obtain ⟨n, rfl⟩ := Int.eq_ofNat_of_zero_le natural
      refine ⟨.origin (some ⟨n, by omega⟩), .origin one decimal, (admits _).mpr fresh, ?_⟩
      simp [collect_append, fresh]
    · have minus : value = -1 := by omega
      subst minus
      refine ⟨.origin none, .anywhere one decimal, (admits _).mpr fresh, ?_⟩
      simp [collect_append, fresh]
  · rintro ⟨item, asks, admitted, rfl⟩
    cases asks with
    | @origin _ text slot one decimal =>
      have lt := slot.isLt
      have fresh := (admits _).mp admitted
      refine ⟨(), fresh, slot.val, ⟨text, one, decimal, by omega, by omega⟩, ?_⟩
      simp [collect_append, fresh, pure, Except.pure]
    | @anywhere _ text one decimal =>
      have fresh := (admits _).mp admitted
      refine ⟨(), fresh, -1, ⟨text, one, decimal, by omega, by omega⟩, ?_⟩
      simp [collect_append, fresh, pure, Except.pure]

theorem acceptSetting_wrap_eq_ok_iff {argument : List Char} :
    (collect seen).acceptSetting .wrap argument = .ok e ↔
      ∃ item, Asks .wrap argument item ∧ Admits seen item ∧ e = collect (seen ++ [item]) := by
  have admits : ∀ slot, Admits seen (.wrap slot) ↔ (collect seen).wrap = none := fun slot =>
    (admits_iff_findSome? (fun a => by cases a <;> simp [Item.Allows]) rfl).trans
      Option.map_eq_none_iff.symm
  simp only [acceptSetting, bind_eq_ok_iff, once_eq_ok_iff, readSlot_eq_ok_iff]
  constructor
  · rintro ⟨_, fresh, n, ⟨text, one, decimal, lt⟩, h⟩
    cases h
    refine ⟨.wrap ⟨n, lt⟩, .wrap one decimal, (admits _).mpr fresh, ?_⟩
    simp [collect_append, fresh]
  · rintro ⟨item, asks, admitted, rfl⟩
    cases asks with
    | @wrap _ text slot one decimal =>
      have fresh := (admits slot).mp admitted
      refine ⟨(), fresh, slot.val, ⟨text, one, decimal, slot.isLt⟩, ?_⟩
      simp [collect_append, fresh, pure, Except.pure]

theorem acceptSetting_wrapTarget_eq_ok_iff {argument : List Char} :
    (collect seen).acceptSetting .wrapTarget argument = .ok e ↔
      ∃ item, Asks .wrapTarget argument item ∧ Admits seen item ∧ e = collect (seen ++ [item]) := by
  have admits : ∀ slot, Admits seen (.wrapTarget slot) ↔ (collect seen).wrapTarget = none :=
    fun slot => (admits_iff_findSome? (fun a => by cases a <;> simp [Item.Allows]) rfl).trans
      Option.map_eq_none_iff.symm
  simp only [acceptSetting, bind_eq_ok_iff, once_eq_ok_iff, readSlot_eq_ok_iff]
  constructor
  · rintro ⟨_, fresh, n, ⟨text, one, decimal, lt⟩, h⟩
    cases h
    refine ⟨.wrapTarget ⟨n, lt⟩, .wrapTarget one decimal, (admits _).mpr fresh, ?_⟩
    simp [collect_append, fresh]
  · rintro ⟨item, asks, admitted, rfl⟩
    cases asks with
    | @wrapTarget _ text slot one decimal =>
      have fresh := (admits slot).mp admitted
      refine ⟨(), fresh, slot.val, ⟨text, one, decimal, slot.isLt⟩, ?_⟩
      simp [collect_append, fresh, pure, Except.pure]

theorem acceptSetting_sideSet_eq_ok_iff {argument : List Char} :
    (collect seen).acceptSetting .sideSet argument = .ok e ↔
      ∃ item, Asks .sideSet argument item ∧ Admits seen item ∧ e = collect (seen ++ [item]) := by
  simp only [acceptSetting, bind_eq_ok_iff, once_eq_ok_iff]
  constructor
  · rintro ⟨_, fresh, h⟩
    by_cases before : (collect seen).code = []
    · simp only [before, List.isEmpty_nil, if_true, bind_eq_ok_iff, readSideSet_eq_ok_iff] at h
      obtain ⟨s, ⟨count, flags, tokens, decimal, few, known, isOptional, pindirs, fits⟩, h⟩ := h
      cases h
      refine ⟨.sideSet s fits, .sideSet tokens decimal few known isOptional pindirs fits,
        admits_sideSet_iff.mpr ⟨fresh, before⟩, ?_⟩
      simp [collect_append, fresh, before]
    · have late : (collect seen).code.isEmpty = false := by simpa using before
      rw [late] at h
      cases h
  · rintro ⟨item, asks, admitted, rfl⟩
    cases asks with
    | @sideSet _ count flags s tokens decimal few known isOptional pindirs fits =>
      obtain ⟨fresh, before⟩ := admits_sideSet_iff.mp admitted
      change (collect seen).sideSet = none at fresh
      change (collect seen).code = [] at before
      refine ⟨(), fresh, ?_⟩
      simp only [before, List.isEmpty_nil, if_true, bind_eq_ok_iff, readSideSet_eq_ok_iff]
      refine ⟨s, ⟨count, flags, tokens, decimal, few, known, isOptional, pindirs, fits⟩, ?_⟩
      simp [collect_append, fresh, before, pure, Except.pure]

theorem acceptSetting_word_eq_ok_iff {argument : List Char}
    (len : (collect seen).code.length ≤ 32) :
    (collect seen).acceptSetting .word argument = .ok e ↔
      ∃ item, Asks .word argument item ∧ Admits seen item ∧ e = collect (seen ++ [item]) := by
  simp only [acceptSetting, bind_eq_ok_iff, readArgument_eq_ok_iff, toWord_eq_ok_iff,
    push_eq_ok_iff len]
  constructor
  · rintro ⟨value, ⟨text, one, decimal, -⟩, i, rfl, admitted, rfl⟩
    exact ⟨_, .word one decimal, admitted, rfl⟩
  · rintro ⟨item, asks, admitted, rfl⟩
    cases asks with
    | @word _ text i one decimal =>
      have lt := i.isLt
      exact ⟨i.toNat, ⟨text, one, decimal, by omega, by omega⟩, i, rfl, admitted, rfl⟩

theorem acceptName_eq_ok_iff {d : Directive} (trimmed : Trimmed d.argument) :
    (collect seen).acceptName d = .ok e ↔
      ∃ item, Asks .program d.argument item ∧ Admits seen item ∧
        e = collect (seen ++ [item]) := by
  have admits : ∀ id ne, Admits seen (.name id ne) ↔ (collect seen).id = none := fun id ne =>
    admits_iff_findSome? (fun a => by cases a <;> simp [Item.Allows]) rfl
  simp only [acceptName, bind_eq_ok_iff, mapError_eq_ok_iff, once_eq_ok_iff]
  constructor
  · rintro ⟨_, fresh, h⟩
    cases fault : nameFault? d.argument with
    | some f =>
      rw [fault] at h
      cases h
    | none =>
      rw [fault] at h
      cases h
      have valid : IsIdentifier d.argument := nameFault?_eq_none_iff.mp fault
      have one : Tokens d.argument [d.argument] := words_eq_iff.mp (words_of_isIdentifier valid)
      refine ⟨_, .program one valid, (admits _ _).mpr fresh, ?_⟩
      simp [collect_append, fresh]
  · rintro ⟨item, asks, admitted, rfl⟩
    cases asks with
    | @program _ id one valid =>
      have whole := trimmed.eq_of_tokens one
      have fresh := (admits _ _).mp admitted
      refine ⟨(), fresh, ?_⟩
      rw [whole, nameFault?_eq_none_iff.mpr valid]
      simp [collect_append, fresh, pure, Except.pure]

theorem accept_directive_eq_ok_iff {d : Directive} {k : Keyword} (trimmed : Trimmed d.argument)
    (named : Keyword.ofName? d.name = some k) (len : (collect seen).code.length ≤ 32) :
    (collect seen).accept (.directive d) = .ok e ↔
      ∃ item, Asks k d.argument item ∧ Admits seen item ∧ e = collect (seen ++ [item]) := by
  cases k with
  | program =>
    simp only [accept, named]
    exact acceptName_eq_ok_iff trimmed
  | origin =>
    simp only [accept, named, mapError_eq_ok_iff]
    exact acceptSetting_origin_eq_ok_iff
  | wrap =>
    simp only [accept, named, mapError_eq_ok_iff]
    exact acceptSetting_wrap_eq_ok_iff
  | wrapTarget =>
    simp only [accept, named, mapError_eq_ok_iff]
    exact acceptSetting_wrapTarget_eq_ok_iff
  | sideSet =>
    simp only [accept, named, mapError_eq_ok_iff]
    exact acceptSetting_sideSet_eq_ok_iff
  | word =>
    simp only [accept, named, mapError_eq_ok_iff]
    exact acceptSetting_word_eq_ok_iff len

/-- A line is accepted when it reads as an item that may follow those seen. -/
theorem accept_eq_ok_iff {text : List Char} (len : (collect seen).code.length ≤ 32) :
    (collect seen).accept (.ofText text) = .ok e ↔
      ∃ item, Reads text item ∧ Admits seen item ∧ e = collect (seen ++ [item]) := by
  simp only [reads_iff]
  have form := form_ofText text
  generalize Line.ofText text = line at form ⊢
  have same : collect (seen ++ [.nothing]) = collect seen := by simp [collect_append]
  cases line with
  | nothing =>
    constructor
    · intro h
      cases h
      exact ⟨.nothing, .nothing, admits_nothing seen, same.symm⟩
    · rintro ⟨item, gives, -, rfl⟩
      cases gives
      rw [same]
      rfl
  | word text =>
    simp only [accept, mapError_eq_ok_iff, bind_eq_ok_iff, readWord_eq_ok_iff, push_eq_ok_iff len]
    constructor
    · rintro ⟨i, ⟨mark, digits, marks, spells, rfl⟩, admitted, rfl⟩
      exact ⟨_, .word marks spells, admitted, rfl⟩
    · rintro ⟨item, gives, admitted, rfl⟩
      cases gives with
      | word marks spells => exact ⟨_, ⟨_, _, marks, spells, rfl⟩, admitted, rfl⟩
  | directive d =>
    have trimmed : Trimmed d.argument := by
      cases form
      assumption
    cases named : Keyword.ofName? d.name with
    | none =>
      have unknown := ofName?_eq_none_iff.mp named
      simp only [accept, named]
      constructor
      · intro h
        cases h
        exact ⟨.nothing, .directive trimmed (.other unknown), admits_nothing seen, same.symm⟩
      · rintro ⟨item, gives, -, rfl⟩
        cases gives with
        | directive _ meaning =>
          cases meaning with
          | known named _ => exact absurd named (unknown _)
          | other _ => rw [same]
    | some k =>
      have name_eq := ofName?_eq_some_iff.mp named
      rw [accept_directive_eq_ok_iff trimmed named len]
      constructor
      · rintro ⟨item, asks, admitted, rfl⟩
        exact ⟨item, .directive trimmed (.known name_eq asks), admitted, rfl⟩
      · rintro ⟨item, gives, admitted, rfl⟩
        cases gives with
        | directive _ meaning =>
          cases meaning with
          | @known k' _ named' asks =>
            have same_k : some k = some k' := named.symm.trans (ofName?_eq_some_iff.mpr named')
            cases same_k
            exact ⟨item, asks, admitted, rfl⟩
          | other unknown => exact absurd name_eq (unknown k)

end Entries

end PioBlock.Listing
