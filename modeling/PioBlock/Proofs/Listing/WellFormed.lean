import PioBlock.Proofs.Listing.Reading
import PioBlock.Proofs.ProgramConfig
import PioBlock.Proofs.Slots

/-! What reading a listing can end with. Some checks are made twice: a decimal word is narrowed
after its range was checked, and the builder of programs checks again what the lines were checked
for. The second check of each pair never fails, so none of its causes is ever told, and whatever
program is read is well formed throughout. -/

namespace PioBlock.Listing

/-- The causes of the checks that come second. The last of them is a first check on lines that
hold a bare hexadecimal word. -/
def Cause.isSecond : Cause → Bool
  | .program _ | .instructionOutOfRange _ => true
  | _ => false

/-- Wherever the computation fails, the error is one of `P`. -/
def FailsWithin {ε α : Type} (P : ε → Prop) (x : Except ε α) : Prop := ∀ c, x = .error c → P c

namespace FailsWithin

variable {ε ε' α β : Type} {P : ε → Prop}

theorem ok (a : α) : FailsWithin P (.ok a : Except ε α) := nofun

theorem error {c : ε} (within : P c) : FailsWithin P (.error c : Except ε α) := by
  rintro _ ⟨⟩
  exact within

theorem bind {x : Except ε α} {f : α → Except ε β} (first : FailsWithin P x)
    (rest : ∀ a, x = .ok a → FailsWithin P (f a)) : FailsWithin P (x >>= f) := by
  cases x with
  | error c =>
    rintro _ ⟨⟩
    exact first c rfl
  | ok a => exact rest a rfl

theorem mapError {x : Except ε α} {f : ε → ε'} {Q : ε' → Prop}
    (within : FailsWithin (fun c => Q (f c)) x) : FailsWithin Q (x.mapError f) := by
  cases x with
  | error c =>
    rintro _ ⟨⟩
    exact within c rfl
  | ok a => exact ok a

end FailsWithin

/-- The causes of the checks on the entries, the arguments and the words of lines, where these
come first. -/
def Cause.isFirst : Cause → Bool
  | .invalidName _ | .emptyProgram | .unreadable _ => false
  | cause => !cause.isSecond

abbrev FailsFirst {α : Type} (x : Except Cause α) : Prop := FailsWithin (·.isFirst = true) x

theorem failsFirst_readNumber (text : List Char) : FailsFirst (readNumber text) := by
  rw [readNumber]
  cases Numeral.readInt? text with
  | none => exact .error rfl
  | some value => exact .ok _

theorem failsFirst_readArgument (keyword : Keyword) (low high : Int) (argument : List Char) :
    FailsFirst (readArgument keyword low high argument) := by
  unfold readArgument
  split
  · exact .error rfl
  · exact .error rfl
  · refine .bind (failsFirst_readNumber _) fun value _ => ?_
    split
    · exact .ok _
    · exact .error rfl

theorem failsFirst_toNatural (keyword : Keyword) (high value : Int) :
    FailsFirst (toNatural keyword high value) := by
  rw [toNatural]
  split
  · exact .ok _
  · exact .error rfl

theorem failsFirst_readSlot (keyword : Keyword) (argument : List Char) :
    FailsFirst (readSlot keyword argument) :=
  .bind (failsFirst_readArgument _ _ _ _) fun _ _ => failsFirst_toNatural _ _ _

theorem failsFirst_readFlags (room : Nat) (isOptional pindirs : Bool) (flags : List (List Char)) :
    FailsFirst (readFlags room isOptional pindirs flags) := by
  fun_induction readFlags room isOptional pindirs flags with
  | case1 => exact .ok _
  | case2 => exact .error rfl
  | case3 _ _ _ _ ih => exact ih
  | case4 _ _ _ _ _ ih => exact ih
  | case5 => exact .error rfl

theorem failsFirst_readSideSet (argument : List Char) : FailsFirst (readSideSet argument) := by
  unfold readSideSet
  split
  · exact .error rfl
  · exact .bind (failsFirst_readNumber _) fun _ _ => .bind (failsFirst_readFlags _ _ _ _)
      fun _ _ => .bind (failsFirst_toNatural _ _ _) fun _ _ => .ok _

theorem toWord_of_readArgument {argument : List Char} {value : Int}
    (inside : readArgument .word 0 65535 argument = .ok value) (text : List Char) :
    ∃ i, toWord text value = .ok i := by
  obtain ⟨_, -, -, low, high⟩ := readArgument_eq_ok_iff.mp inside
  exact ⟨_, if_pos ⟨low, by omega⟩⟩

namespace Entries

theorem failsFirst_once {α : Type} (keyword : Keyword) (entry : Option α) :
    FailsFirst (once keyword entry) := by
  cases entry with
  | none => exact .ok _
  | some a => exact .error rfl

theorem failsFirst_push (e : Entries) (i : Instruction) : FailsFirst (e.push i) := by
  rw [push]
  split
  · exact .error rfl
  · exact .ok _

theorem failsFirst_acceptSetting (e : Entries) (keyword : Keyword) (argument : List Char) :
    FailsFirst (e.acceptSetting keyword argument) := by
  cases keyword with
  | program => exact .ok _
  | origin =>
    exact .bind (failsFirst_once _ _) fun _ _ => .bind (failsFirst_readArgument _ _ _ _)
      fun _ _ => .ok _
  | wrap =>
    exact .bind (failsFirst_once _ _) fun _ _ => .bind (failsFirst_readSlot _ _) fun _ _ => .ok _
  | wrapTarget =>
    exact .bind (failsFirst_once _ _) fun _ _ => .bind (failsFirst_readSlot _ _) fun _ _ => .ok _
  | sideSet =>
    refine .bind (failsFirst_once _ _) fun _ _ => ?_
    split
    · exact .bind (failsFirst_readSideSet _) fun _ _ => .ok _
    · exact .error rfl
  | word =>
    refine .bind (failsFirst_readArgument _ _ _ _) fun value inside => ?_
    obtain ⟨i, narrow⟩ := toWord_of_readArgument inside argument
    rw [narrow]
    exact e.failsFirst_push i

end Entries

inductive Refused : Line → Complaint → Prop where
  | first {line : Line} {cause : Cause} (first : cause.isFirst = true) : Refused line (.about cause)
  | long (word : List Char) :
      Refused (.word word) (.about (.instructionOutOfRange (String.ofList word)))
  | name {d : Directive} {n : Nat} {fault : NameFault} (named : d.name = Keyword.program.name.toList)
      (faulty : nameFault? d.argument = some (n, fault)) :
      Refused (.directive d) ⟨.invalidName fault, some (d.column + n)⟩

theorem FailsFirst.refused {α : Type} {x : Except Cause α} (first : FailsFirst x) (line : Line) :
    FailsWithin (fun c => Refused line (.about c)) x := fun c failed => .first (first c failed)

theorem Entries.accept_failsWithin (e : Entries) (line : Line) :
    FailsWithin (Refused line) (e.accept line) := by
  cases line with
  | nothing => exact .ok _
  | word text =>
    refine .mapError (.bind ?_ fun i _ => FailsFirst.refused (e.failsFirst_push i) _)
    rw [readWord]
    cases Numeral.readHex? (wordDigits text) with
    | none => exact .error (.first rfl)
    | some value =>
      dsimp only
      rw [toWord]
      split
      · exact .ok _
      · exact .error (.long text)
  | directive d =>
    rw [accept]
    cases named : Keyword.ofName? d.name with
    | none => exact .ok _
    | some keyword =>
      cases keyword with
      | program =>
        refine .bind (.mapError (FailsFirst.refused (failsFirst_once _ _) _)) fun _ _ => ?_
        split
        · next faulty => exact .error (.name (ofName?_eq_some_iff.mp named) faulty)
        · exact .ok _
      | origin | wrap | wrapTarget | sideSet | word =>
        exact .mapError (FailsFirst.refused (e.failsFirst_acceptSetting _ _) _)

theorem Refused.of_isSecond {line : Line} {c : Complaint} (refused : Refused line c)
    (second : c.cause.isSecond = true) :
    ∃ word, line = .word word ∧ c.cause = .instructionOutOfRange (String.ofList word) := by
  cases refused with
  | @first _ cause first =>
    have other : cause.isSecond = false := by
      cases cause with
      | invalidName | emptyProgram | unreadable => cases first
      | _ => simpa [Cause.isFirst] using first
    rw [Complaint.about, other] at second
    cases second
  | long word => exact ⟨word, rfl, rfl⟩
  | name => cases second

theorem Refused.ne_emptyProgram {line : Line} {c : Complaint} (refused : Refused line c) :
    c.cause ≠ .emptyProgram := by
  cases refused with
  | first first =>
    rintro rfl
    cases first
  | long | name => nofun

namespace Progress

theorem exists_of_steps_eq_error {resource : String} {p : Progress} {lines : List (List Char)}
    {d : Diagnostic} (stopped : p.steps resource (lines.map .ok) = .error d) :
    ∃ n line, lines[n]? = some line ∧ d.line = p.lines + n + 1 ∧
      ∃ (e : Entries) (c : Complaint), e.accept (.ofText line) = .error c ∧ d.cause = c.cause := by
  induction lines generalizing p with
  | nil => cases stopped
  | cons line rest ih =>
    rw [List.map_cons, steps, step] at stopped
    cases accepted : p.entries.accept (.ofText line) with
    | error c =>
      rw [accepted] at stopped
      cases stopped
      exact ⟨0, line, rfl, rfl, p.entries, c, accepted, rfl⟩
    | ok e =>
      rw [accepted] at stopped
      obtain ⟨n, found, at_, place, refused⟩ := ih stopped
      refine ⟨n + 1, found, at_, ?_, refused⟩
      rw [place, Nat.add_assoc p.lines, Nat.add_comm 1]

theorem finish_eq_error {resource : String} {n : Nat} {items : List Item} (fits : Fits items)
    {d : Diagnostic} (failed : finish resource ⟨n, .collect items⟩ = .error d) :
    d.cause = .emptyProgram := by
  rw [finish] at failed
  cases code : items.filterMap Item.code? with
  | nil =>
    have empty : (Entries.collect items).code.isEmpty = true := by rw [Entries.collect, code]; rfl
    rw [if_pos empty] at failed
    cases failed
    rfl
  | cons i rest =>
    have some_code : ¬ (Entries.collect items).code.isEmpty = true := by
      rw [Entries.collect, code]
      exact Bool.false_ne_true
    obtain ⟨p, built, -⟩ := build_collect items (by rw [code]; exact Nat.zero_lt_succ _)
      fits.code_fits
    rw [if_neg some_code] at failed
    dsimp only at failed
    rw [built] at failed
    cases failed

end Progress

/-- The only second cause that a text is refused for is that a bare word is too long. -/
theorem exists_of_read_eq_error {resource text : String} {d : Diagnostic}
    (refused : read resource text = .error d) (second : d.cause.isSecond = true) :
    ∃ n line word, d.line = n + 1 ∧ (textLines text.toList)[n]? = some line ∧
      Line.ofText line = .word word ∧ d.cause = .instructionOutOfRange (String.ofList word) := by
  rw [read, readText, readLines] at refused
  cases stopped : Progress.start.steps resource ((textLines text.toList).map .ok) with
  | error d' =>
    rw [stopped] at refused
    cases refused
    obtain ⟨n, line, found, place, e, c, unaccepted, cause⟩ :=
      Progress.exists_of_steps_eq_error stopped
    rw [cause] at second ⊢
    obtain ⟨word, holds, told⟩ := (e.accept_failsWithin _ c unaccepted).of_isSecond second
    refine ⟨n, line, word, ?_, found, holds, told⟩
    rw [place, Progress.start, Nat.zero_add]
  | ok progress =>
    rw [stopped] at refused
    obtain ⟨items, -, fits, rfl⟩ := (Progress.steps_eq_ok_iff fits_nil).mp stopped
    have failed : Progress.finish resource ⟨_, .collect items⟩ = .error d := refused
    rw [Progress.finish_eq_error fits failed] at second
    cases second

theorem Reads.isIdentifier {line : List Char} {id : String} {ne : id ≠ ""}
    (reads : Reads line (.name id ne)) : IsIdentifier id.toList := by
  cases reads with
  | directive _ _ _ _ _ _ _ meaning =>
    cases meaning with
    | known _ asks =>
      cases asks with
      | program _ valid => rwa [String.toList_ofList]

theorem isIdentifier_of_read {resource text : String} {p : Program}
    (done : read resource text = .ok p) {id : String} (named : p.id = some id) :
    IsIdentifier id.toList := by
  rw [read, readText, readLines, bind_eq_ok_iff] at done
  obtain ⟨_, stepped, finished⟩ := done
  obtain ⟨items, reads, fits, rfl⟩ := (Progress.steps_eq_ok_iff fits_nil).mp stepped
  obtain ⟨some_code, built⟩ := Progress.finish_eq_ok_iff.mp finished
  obtain ⟨q, built', describes⟩ :=
    build_collect items (List.length_pos_iff.mpr some_code) fits.code_fits
  cases built.symm.trans built'
  rw [describes.id_eq] at named
  obtain ⟨item, member, named⟩ := List.exists_of_findSome?_eq_some named
  obtain ⟨n, lt, rfl⟩ := List.mem_iff_getElem.mp member
  have meaning := reads.get (reads.length_eq ▸ lt) lt
  rw [List.get_eq_getElem, List.get_eq_getElem] at meaning
  generalize items[n] = item at meaning named
  cases item with
  | name id ne =>
    cases named
    exact meaning.isIdentifier
  | nothing | origin | wrap | wrapTarget | sideSet | code => cases named

/-- No text is refused because the builder rejects what was collected, nor for the width of a
decimal word, and every program that is read is well formed: its parts are in range, its masks and
bytes are as many as its instructions, and it can be configured for wherever it is loaded. -/
theorem read_well_formed (resource text : String) :
    (∀ d, read resource text = .error d →
      (∀ e, d.cause ≠ .program e) ∧
      ∀ told, d.cause = .instructionOutOfRange told →
        ∃ n line word, d.line = n + 1 ∧ (textLines text.toList)[n]? = some line ∧
          Line.ofText line = .word word ∧ told = String.ofList word) ∧
    ∀ p, read resource text = .ok p →
      1 ≤ p.length ∧ p.length ≤ 32 ∧ p.wrap.val < 32 ∧ p.wrapTarget.val < 32 ∧
      (∀ origin, p.origin = some origin → origin.val < 32) ∧
      p.sideSet.count + (if p.sideSet.isOptional then 1 else 0) ≤ 5 ∧
      (∀ id, p.id = some id → IsIdentifier id.toList) ∧
      (setBits p.allocationMask).length = p.length ∧ p.image.length = 2 * p.length ∧
      ∀ offset < 32, ∃ c, Config.forProgram p offset = .ok c := by
  constructor
  · intro d refused
    have second := exists_of_read_eq_error refused
    constructor
    · intro e cause
      obtain ⟨n, line, word, -, -, -, told⟩ := second (by rw [cause]; rfl)
      rw [cause] at told
      cases told
    · intro told cause
      obtain ⟨n, line, word, place, found, holds, same⟩ := second (by rw [cause]; rfl)
      rw [cause] at same
      cases same
      exact ⟨n, line, word, place, found, holds, rfl⟩
  · intro p done
    refine ⟨p.instructions_pos, p.instructions_le, p.wrap.isLt, p.wrapTarget.isLt,
      fun origin _ => origin.isLt, ?_, fun id => isIdentifier_of_read done,
      p.length_setBits_allocationMask, p.length_image, fun offset lt => ?_⟩
    · have total := p.sideSet_le
      rw [SideSet.totalBits] at total
      cases optional : p.sideSet.isOptional <;> simp [optional] at total ⊢ <;> omega
    · obtain ⟨c, configured, -⟩ := Config.forProgram_eq_ok p lt
      exact ⟨c, configured⟩

theorem read_well_formed_around :
    read "r" "#.word 65535\n10000" = .error ⟨"r", 2, .instructionOutOfRange "10000", none⟩ ∧
    (∃ n line word, 2 = n + 1 ∧ (textLines "#.word 65535\n10000".toList)[n]? = some line ∧
      Line.ofText line = .word word ∧ "10000" = String.ofList word) ∧
    ∃ p, read "r" "#.program blink\n#.origin 31\n#.side_set 4 opt\ne081\n#.word 40961" = .ok p ∧
      p.wrap = 0 ∧ p.wrapTarget = 31 ∧ (setBits p.allocationMask).length = p.length ∧
      ∀ offset < 32, ∃ c, Config.forProgram p offset = .ok c := by
  have refused : read "r" "#.word 65535\n10000" =
      .error ⟨"r", 2, .instructionOutOfRange "10000", none⟩ := by decide +kernel
  have taken : ∃ p,
      read "r" "#.program blink\n#.origin 31\n#.side_set 4 opt\ne081\n#.word 40961" = .ok p ∧
        p.wrap = 0 ∧ p.wrapTarget = 31 := ⟨⟨some "blink", some 31, 0, 31, ⟨4, true, false⟩,
      [0xe081, 0xa001], by decide, by decide, by decide, by decide⟩, by decide +kernel, rfl, rfl⟩
  obtain ⟨p, done, wrap, target⟩ := taken
  obtain ⟨-, -, -, -, -, -, -, mask, -, configured⟩ := (read_well_formed _ _).2 p done
  exact ⟨refused, ((read_well_formed _ _).1 _ refused).2 _ rfl,
    p, done, wrap, target, mask, configured⟩

end PioBlock.Listing
