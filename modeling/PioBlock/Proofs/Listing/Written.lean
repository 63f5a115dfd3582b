import PioBlock.Proofs.Listing.Lines
import PioBlock.Proofs.Listing.Reading

/-! Writing programs down. What a program consists of is a list of items: its name and origin if it
has them, its wrap and side-set, and its instructions. A line writes an item down as a directive
with its tokens, or an instruction as hexadecimal digits, and is read as that item again. The items
of a program are coherent and describe it, so what was written line by line is read as the
program. -/

namespace PioBlock

namespace SideSet

def flags (s : SideSet) : List (List Char) :=
  (if s.isOptional then ["opt".toList] else []) ++ if s.pindirs then ["pindirs".toList] else []

theorem mem_flags {s : SideSet} {f : List Char} : f ∈ s.flags ↔
    (s.isOptional = true ∧ f = "opt".toList) ∨ (s.pindirs = true ∧ f = "pindirs".toList) := by
  rw [flags, List.mem_append]
  cases s.isOptional <;> cases s.pindirs <;> simp

theorem length_flags (s : SideSet) : s.flags.length ≤ 2 := by
  rw [flags]
  cases s.isOptional <;> cases s.pindirs <;> decide

end SideSet

namespace Listing

open Numeral

/-- The text may stand between two blanks as one token of a directive. -/
structure Plain (token : List Char) : Prop where
  ne : token ≠ []
  solid : NoBlank token
  open_ : ';' ∉ token

theorem plain_of_spells {text : List Char} {n : Nat} (spells : Spells decimalDigit? 10 text n) :
    Plain text := by
  have hex : ∀ c ∈ text, ∃ d, hexDigit? c = some d := by
    intro c member
    obtain ⟨d, digit⟩ := spells.exists_digit member
    refine ⟨d, ?_⟩
    rw [decimalDigit?] at digit
    split at digit
    · next range => rw [hexDigit?, if_pos range, digit]
    · cases digit
  refine ⟨spells.1, fun c member => isBlank_eq_false_of_hexDigit? (hex c member).choose_spec, ?_⟩
  intro member
  obtain ⟨d, digit⟩ := hex _ member
  cases digit

theorem Plain.sign {text : List Char} {c : Char} (plain : Plain text) (visible : isBlank c = false)
    (other : c ≠ ';') : Plain (c :: text) := by
  refine ⟨List.cons_ne_nil c text, List.forall_mem_cons.mpr ⟨visible, plain.solid⟩, ?_⟩
  rw [List.mem_cons, not_or]
  exact ⟨other.symm, plain.open_⟩

theorem plain_of_decimal {text : List Char} {value : Int} (decimal : Decimal text value) :
    Plain text := by
  cases decimal with
  | plain spells => exact plain_of_spells spells
  | plus spells => exact (plain_of_spells spells).sign rfl (by decide)
  | minus spells => exact (plain_of_spells spells).sign rfl (by decide)

theorem plain_of_isIdentifier {text : List Char} (valid : IsIdentifier text) : Plain text := by
  obtain ⟨c, rest, rfl, first, others⟩ := valid
  have all : ∀ d ∈ c :: rest, isNameRest d = true :=
    List.forall_mem_cons.mpr ⟨isNameRest_of_isNameStart first, others⟩
  refine ⟨List.cons_ne_nil c rest, fun d member => isBlank_eq_false_of_isNameRest (all d member), ?_⟩
  exact fun member => absurd (all _ member) (by decide)

theorem SideSet.plain_of_mem_flags {s : SideSet} {f : List Char} (member : f ∈ s.flags) :
    Plain f := by
  obtain ⟨-, rfl⟩ | ⟨-, rfl⟩ := SideSet.mem_flags.mp member
  · exact ⟨by decide, noBlank_iff.mpr (by decide), by decide⟩
  · exact ⟨by decide, noBlank_iff.mpr (by decide), by decide⟩

def spaced (tokens : List (List Char)) : List Char := tokens.flatMap (' ' :: ·)

theorem startsBlank_spaced (tokens : List (List Char)) : StartsBlank (spaced tokens) := by
  cases tokens with
  | nil => exact fun c h => nomatch h
  | cons token tokens =>
    intro c h
    cases h
    rfl

theorem tokens_spaced {tokens : List (List Char)} (plain : ∀ t ∈ tokens, Plain t) :
    Tokens (spaced tokens) tokens := by
  induction tokens with
  | nil => exact .none fun c h => nomatch h
  | cons token tokens ih =>
    obtain ⟨first, plain⟩ := List.forall_mem_cons.mp plain
    have gap : AllBlank [' '] := List.forall_mem_singleton.mpr rfl
    exact .cons gap first.ne first.solid (startsBlank_spaced tokens) (ih plain)

theorem mem_spaced {tokens : List (List Char)} {c : Char} :
    c ∈ spaced tokens → c = ' ' ∨ ∃ t ∈ tokens, c ∈ t := by
  rw [spaced, List.mem_flatMap]
  rintro ⟨t, listed, member⟩
  rcases List.mem_cons.mp member with space | member
  · exact Or.inl space
  · exact Or.inr ⟨t, listed, member⟩

theorem Keyword.noBlank_name (k : Keyword) : NoBlank k.name.toList := by
  rw [noBlank_iff]
  cases k <;> decide

def directiveLine (k : Keyword) (tokens : List (List Char)) : List Char :=
  '#' :: (k.name.toList ++ spaced tokens)

/-- The line writes the item down. -/
inductive Writes : List Char → Item → Prop where
  | name {id : String} {ne : id ≠ ""} (valid : IsIdentifier id.toList) :
      Writes (directiveLine .program [id.toList]) (.name id ne)
  | origin {text : List Char} {slot : Slot} (decimal : Decimal text slot.val) :
      Writes (directiveLine .origin [text]) (.origin (some slot))
  | wrap {text : List Char} {slot : Slot} (decimal : Decimal text slot.val) :
      Writes (directiveLine .wrap [text]) (.wrap slot)
  | wrapTarget {text : List Char} {slot : Slot} (decimal : Decimal text slot.val) :
      Writes (directiveLine .wrapTarget [text]) (.wrapTarget slot)
  | sideSet {text : List Char} {s : SideSet} {fits : s.count ≤ s.maxCount}
      (decimal : Decimal text s.count) :
      Writes (directiveLine .sideSet (text :: s.flags)) (.sideSet s fits)
  | word {text : List Char} {i : Instruction} (decimal : Decimal text i.toNat) :
      Writes (directiveLine .word [text]) (.code i)
  | hex {mark digits : List Char} {i : Instruction} (marks : mark ∈ [[], "0x".toList, "0X".toList])
      (spells : Spells hexDigit? 16 digits i.toNat) : Writes (mark ++ digits) (.code i)

theorem reads_directiveLine {k : Keyword} {tokens : List (List Char)} {item : Item}
    (plain : ∀ t ∈ tokens, Plain t) (asks : Asks k (spaced tokens) item) :
    Reads (directiveLine k tokens) item := by
  have named : k.name.toList.head? = some '.' ∧ ';' ∉ k.name.toList := by cases k <;> decide
  obtain ⟨dot, open_⟩ := named
  have closed : ';' ∉ k.name.toList ++ spaced tokens := by
    rw [List.mem_append, not_or]
    refine ⟨open_, fun member => ?_⟩
    rcases mem_spaced member with space | ⟨t, listed, member⟩
    · exact absurd space (by decide)
    · exact (plain t listed).open_ member
  have reads : Reads ([] ++ '#' :: ([] ++ (k.name.toList ++ spaced tokens ++ []))) item :=
    .directive nofun nofun dot k.noBlank_name (startsBlank_spaced tokens) closed nofun (.known rfl asks)
  rwa [List.append_nil] at reads

theorem asks_or_spells_of_writes {line : List Char} {item : Item} (writes : Writes line item) :
    (∃ k tokens, line = directiveLine k tokens ∧ (∀ t ∈ tokens, Plain t) ∧
      Asks k (spaced tokens) item) ∨
    ∃ mark digits i, line = mark ++ digits ∧ item = .code i ∧
      mark ∈ [[], "0x".toList, "0X".toList] ∧ Spells hexDigit? 16 digits i.toNat := by
  have lone : ∀ {k : Keyword} {token : List Char}, Plain token →
      (Tokens (spaced [token]) [token] → Asks k (spaced [token]) item) →
      ∃ k' tokens, directiveLine k [token] = directiveLine k' tokens ∧ (∀ t ∈ tokens, Plain t) ∧
        Asks k' (spaced tokens) item := by
    intro k token plain asks
    have each := List.forall_mem_singleton.mpr plain
    exact ⟨k, [token], rfl, each, asks (tokens_spaced each)⟩
  cases writes with
  | @name id ne valid =>
    obtain ⟨chars, rfl⟩ : ∃ chars, id = String.ofList chars := ⟨id.toList, String.ofList_toList.symm⟩
    rw [String.toList_ofList] at valid ⊢
    exact Or.inl (lone (plain_of_isIdentifier valid) fun one => .program one valid)
  | origin decimal => exact Or.inl (lone (plain_of_decimal decimal) fun one => .origin one decimal)
  | wrap decimal => exact Or.inl (lone (plain_of_decimal decimal) fun one => .wrap one decimal)
  | wrapTarget decimal =>
    exact Or.inl (lone (plain_of_decimal decimal) fun one => .wrapTarget one decimal)
  | @sideSet text s fits decimal =>
    have plain : ∀ t ∈ text :: s.flags, Plain t :=
      List.forall_mem_cons.mpr ⟨plain_of_decimal decimal, fun _ => SideSet.plain_of_mem_flags⟩
    have known : ∀ f ∈ s.flags, f = "opt".toList ∨ f = "pindirs".toList := fun _ member =>
      (SideSet.mem_flags.mp member).imp And.right And.right
    have isOptional : s.isOptional = true ↔ "opt".toList ∈ s.flags := by simp [SideSet.mem_flags]
    have pindirs : s.pindirs = true ↔ "pindirs".toList ∈ s.flags := by simp [SideSet.mem_flags]
    exact Or.inl ⟨.sideSet, text :: s.flags, rfl, plain,
      .sideSet (tokens_spaced plain) decimal s.length_flags known isOptional pindirs fits⟩
  | word decimal => exact Or.inl (lone (plain_of_decimal decimal) fun one => .word one decimal)
  | @hex mark digits i marks spells => exact Or.inr ⟨mark, digits, i, rfl, rfl, marks, spells⟩

theorem reads_of_writes {line : List Char} {item : Item} (writes : Writes line item) :
    Reads line item := by
  obtain ⟨k, tokens, rfl, plain, asks⟩ | ⟨mark, digits, i, rfl, rfl, marks, spells⟩ :=
    asks_or_spells_of_writes writes
  · exact reads_directiveLine plain asks
  · have reads : Reads ([] ++ (mark ++ digits ++ [])) (.code i) := .word nofun nofun marks spells
    rwa [List.append_nil] at reads

theorem solid_or_space_of_writes {line : List Char} {item : Item} (writes : Writes line item) :
    ∀ c ∈ line, isBlank c = false ∨ c = ' ' := by
  intro c member
  obtain ⟨k, tokens, rfl, plain, -⟩ | ⟨mark, digits, i, rfl, -, marks, spells⟩ :=
    asks_or_spells_of_writes writes
  · rcases List.mem_cons.mp member with rfl | member
    · exact Or.inl rfl
    · rcases List.mem_append.mp member with member | member
      · exact Or.inl (k.noBlank_name c member)
      · rcases mem_spaced member with space | ⟨t, listed, member⟩
        · exact Or.inr space
        · exact Or.inl ((plain t listed).solid c member)
  · exact Or.inl ((solid_of_spells marks spells).1 c member)

def textOf (lines : List (List Char)) : List Char := lines.flatMap (· ++ ['\n'])

theorem textLines_textOf {lines : List (List Char)} {items : List Item}
    (written : List.Forall₂ Writes lines items) : textLines (textOf lines) = lines := by
  have each : ∀ line ∈ lines, ∃ item, Writes line item := by
    induction written with
    | nil => exact fun line member => nomatch member
    | cons first _ ih => exact List.forall_mem_cons.mpr ⟨⟨_, first⟩, ih⟩
  refine cutLines_flatMap fun line member => ?_
  obtain ⟨item, writes⟩ := each line member
  have apart : ∀ c, isBlank c = true → c ≠ ' ' → c ∉ line := by
    intro c blank other member
    have solid := (solid_or_space_of_writes writes c member).resolve_right other
    rw [blank] at solid
    cases solid
  exact ⟨apart '\n' rfl (by decide), fun last =>
    apart '\r' rfl (by decide) (List.mem_of_getLast? last)⟩

theorem read_eq_ok_of_describes {resource text : String} {items : List Item} {p : Program}
    (reads : List.Forall₂ Reads (textLines text.toList) items) (coherent : Coherent items)
    (describes : Describes items p) : read resource text = .ok p := by
  obtain ⟨q, built, described⟩ := build_collect items coherent.some_code coherent.code_fits
  obtain rfl := describes.unique described
  have taken : Progress.steps resource ⟨0, .collect []⟩ ((textLines text.toList).map .ok) = .ok _ :=
    (Progress.steps_eq_ok_iff fits_nil).mpr
      ⟨items, reads, ⟨coherent.ordered, coherent.code_fits⟩, rfl⟩
  rw [read, readText, readLines, bind_eq_ok_iff]
  exact ⟨_, taken, Progress.finish_eq_ok_iff.mpr
    ⟨List.length_pos_iff.mp coherent.some_code, built⟩⟩

end Listing

namespace Program

open Listing

/-- What the program consists of, in the order in which it is written down. -/
def items (p : Program) : List Item :=
  (p.id.pmap .name fun _ h empty => p.id_ne_empty (h.trans (congrArg some empty))).toList ++
    ((p.origin.map (.origin ∘ some)).toList ++
      (.wrap p.wrap :: .wrapTarget p.wrapTarget ::
        .sideSet p.sideSet (p.sideSet.count_le_maxCount_iff.mpr p.sideSet_le) ::
          p.instructions.map .code))

theorem code_items (p : Program) : p.items.filterMap Item.code? = p.instructions := by
  have codes : (p.instructions.map Item.code).filterMap Item.code? = p.instructions := by
    rw [List.filterMap_map]
    exact List.filterMap_some
  obtain ⟨id, origin, _⟩ := p
  cases id <;> cases origin <;> exact codes

theorem findSome?_map_code {α : Type} {part? : Item → Option α} (other : ∀ i, part? (.code i) = none)
    (code : List Instruction) : (code.map Item.code).findSome? part? = none := by
  rw [List.findSome?_eq_none_iff]
  exact List.forall_mem_map.mpr fun i _ => other i

theorem describes_items (p : Program) : Describes p.items p := by
  have codes := p.code_items.symm
  obtain ⟨id, origin, wrap, wrapTarget, sideSet, code, _⟩ := p
  refine ⟨?_, ?_, ?_, ?_, ?_, codes⟩
  · cases id with
    | none =>
      have unnamed : none = (code.map Item.code).findSome? Item.name? :=
        (findSome?_map_code (fun _ => rfl) code).symm
      cases origin <;> exact unnamed
    | some id => rfl
  · cases origin with
    | none =>
      have unfixed : none = (code.map Item.code).findSome? Item.origin? :=
        (findSome?_map_code (fun _ => rfl) code).symm
      cases id <;> exact congrArg Option.join unfixed
    | some slot => cases id <;> rfl
  all_goals cases id <;> cases origin <;> rfl

theorem coherent_items (p : Program) : Coherent p.items := by
  refine ⟨?_, ?_, ?_⟩
  · have later : (p.instructions.map Item.code).Pairwise Item.Allows :=
      List.pairwise_map.mpr (List.pairwise_of_forall fun _ _ => trivial)
    obtain ⟨id, origin, _⟩ := p
    cases id <;> cases origin <;> simp [items, Item.Allows, later]
  · rw [code_items]
    exact p.instructions_pos
  · rw [code_items]
    exact p.instructions_le

theorem exists_writes {p : Program} (named : ∀ id, p.id = some id → IsIdentifier id.toList) :
    ∃ lines, List.Forall₂ Writes lines p.items := by
  have decimal : ∀ n < 65536, Numeral.Decimal (Nat.toDigits 10 n) n := fun n small =>
    .plain (Numeral.spells_toDigits n) (by omega)
  have slots : ∀ slot : Slot, Numeral.Decimal (Nat.toDigits 10 slot.val) slot.val := fun slot =>
    decimal _ (by omega)
  have each : ∀ item ∈ p.items, ∃ line, Writes line item := by
    intro item member
    cases item with
    | nothing => simp [items] at member
    | name id ne =>
      have held : p.id = some id ∧ id ≠ "" := by
        simpa [items, Option.pmap_eq_some_iff] using member
      exact ⟨_, .name (named id held.1)⟩
    | origin slot =>
      cases slot with
      | none => simp [items] at member
      | some slot => exact ⟨_, .origin (slots slot)⟩
    | wrap slot => exact ⟨_, .wrap (slots slot)⟩
    | wrapTarget slot => exact ⟨_, .wrapTarget (slots slot)⟩
    | sideSet s fits =>
      have small : s.count < 65536 := by
        have := s.count_le_maxCount_iff.mp fits
        rw [SideSet.totalBits] at this
        omega
      exact ⟨_, .sideSet (decimal _ small)⟩
    | code i => exact ⟨_, .word (decimal _ i.isLt)⟩
  generalize p.items = items at each
  induction items with
  | nil => exact ⟨[], .nil⟩
  | cons item items ih =>
    obtain ⟨⟨line, writes⟩, each⟩ := List.forall_mem_cons.mp each
    obtain ⟨lines, written⟩ := ih each
    exact ⟨line :: lines, .cons writes written⟩

end Program

def Instruction.ofImage? : List UInt8 → Option (List Instruction)
  | [] => some []
  | [_] => none
  | low :: high :: rest =>
    (ofImage? rest).map (BitVec.ofNat 16 (low.toNat + 256 * high.toNat) :: ·)

theorem Program.ofImage?_image (p : Program) :
    Instruction.ofImage? p.image = some p.instructions := by
  rw [image]
  induction p.instructions with
  | nil => rfl
  | cons i code ih =>
    have bound := i.isLt
    have whole : BitVec.ofNat 16 (i.toNat.toUInt8.toNat + 256 * (i.toNat / 256).toUInt8.toNat) = i := by
      apply BitVec.eq_of_toNat_eq
      simp only [BitVec.toNat_ofNat, Nat.toUInt8_eq, UInt8.toNat_ofNat']
      omega
    rw [List.flatMap_cons, List.cons_append, List.cons_append, List.nil_append,
      Instruction.ofImage?, ih, whole]
    rfl

namespace Program

open Listing

/-- Every program whose name is an identifier can be written down, and however its items are
written, the text is read as that program. Its image holds its instructions. -/
theorem read_written (p : Program) (named : ∀ id, p.id = some id → IsIdentifier id.toList)
    (resource : String) :
    (∃ lines, List.Forall₂ Writes lines p.items) ∧
    (∀ lines, List.Forall₂ Writes lines p.items →
      read resource (String.ofList (textOf lines)) = .ok p) ∧
    Instruction.ofImage? p.image = some p.instructions := by
  refine ⟨exists_writes named, fun lines written => ?_, p.ofImage?_image⟩
  have reads : List.Forall₂ Reads (textLines (String.ofList (textOf lines)).toList) p.items := by
    rw [String.toList_ofList, textLines_textOf written]
    exact written.imp fun _ _ => reads_of_writes
  exact read_eq_ok_of_describes reads p.coherent_items p.describes_items

def blink : Program where
  id := some "blink"
  origin := some ⟨3, by decide⟩
  wrap := ⟨4, by decide⟩
  wrapTarget := ⟨3, by decide⟩
  sideSet := ⟨1, true, false⟩
  instructions := [0xe081, 0xa001]
  id_ne_empty := by decide
  sideSet_le := by decide
  instructions_pos := by decide
  instructions_le := by decide

theorem read_written_blink :
    IsIdentifier "blink".toList ∧
    read "blink.hex" (String.ofList (textOf ["#.program blink".toList, "#.origin 3".toList,
      "#.wrap 04".toList, "#.wrap_target +3".toList, "#.side_set 1 opt".toList, "0x0E081".toList,
      "#.word 40961".toList])) = .ok blink ∧
    Instruction.ofImage? blink.image = some [0xe081, 0xa001] := by
  have valid : IsIdentifier "blink".toList :=
    ⟨'b', ['l', 'i', 'n', 'k'], rfl, by decide, by simp [isNameRest]⟩
  have named : ∀ id, blink.id = some id → IsIdentifier id.toList := fun id held =>
    Option.some.inj held ▸ valid
  obtain ⟨-, reading, image⟩ := blink.read_written named "blink.hex"
  refine ⟨valid, reading _ ?_, image⟩
  have three : Numeral.Spells Numeral.decimalDigit? 10 ['3'] 3 := ⟨by decide, [3], rfl, rfl⟩
  have four : Numeral.Spells Numeral.decimalDigit? 10 ['0', '4'] 4 := ⟨by decide, [0, 4], rfl, rfl⟩
  have one : Numeral.Spells Numeral.decimalDigit? 10 ['1'] 1 := ⟨by decide, [1], rfl, rfl⟩
  have toggle : Numeral.Spells Numeral.hexDigit? 16 "0E081".toList 0xe081 :=
    ⟨by decide, [0, 14, 0, 8, 1], by decide, by decide⟩
  have last : Numeral.Spells Numeral.decimalDigit? 10 "40961".toList 0xa001 :=
    ⟨by decide, [4, 0, 9, 6, 1], by decide, by decide⟩
  have origin := @Writes.origin ['3'] 3 (.plain three (by decide))
  have wrap := @Writes.wrap ['0', '4'] 4 (.plain four (by decide))
  have wrapTarget := @Writes.wrapTarget ['+', '3'] 3 (.plus three (by decide))
  have sideSet := @Writes.sideSet ['1'] blink.sideSet (by decide) (.plain one (by decide))
  have first := @Writes.hex "0x".toList "0E081".toList 0xe081 (by decide) toggle
  have second := @Writes.word "40961".toList 0xa001 (.plain last (by decide))
  exact .cons (.name valid) (.cons origin (.cons wrap (.cons wrapTarget (.cons sideSet
    (.cons first (.cons second .nil))))))

end Program

end PioBlock
