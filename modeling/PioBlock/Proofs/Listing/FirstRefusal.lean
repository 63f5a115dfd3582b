import PioBlock.Proofs.Listing.Endings

/-! The first line that is refused decides. What is told of it depends on the lines down to it
alone: those above it can be read by themselves, and whatever stands below it makes no difference.
For want of an instruction a text is refused when all of its lines are accepted and none of them
holds one. -/

namespace PioBlock.Listing

def Line.isCode : Line → Bool
  | .nothing => false
  | .directive d => d.name == Keyword.word.name.toList
  | .word _ => true

theorem Gives.isCode_eq {line : Line} {item : Item} (gives : Gives line item) :
    line.isCode = item.code?.isSome := by
  cases gives with
  | nothing => rfl
  | word => rfl
  | directive _ meaning =>
    rw [Line.isCode]
    cases meaning with
    | other unknown => exact beq_eq_false_iff_ne.mpr (unknown .word)
    | known named asks =>
      rw [named]
      cases asks <;> rfl

variable {resource : String} {lines : List (List Char)} {e : Entries}

theorem Accepted.code_eq_nil_iff (accepted : Accepted lines e) :
    e.code = [] ↔ ∀ line ∈ lines, (Line.ofText line).isCode = false := by
  obtain ⟨items, reads, -, rfl⟩ := accepted.exists_items
  clear accepted
  change items.filterMap Item.code? = [] ↔ _
  induction reads with
  | nil => simp
  | @cons line item _ _ first _ ih =>
    rw [List.forall_mem_cons, (reads_iff.mp first).isCode_eq, ← ih, List.filterMap_cons]
    cases item.code? <;> simp

theorem exists_isPrefix_textLines (text : List Char) (k : ℕ) :
    ∃ front, front <+: text ∧ textLines front = (textLines text).take k := by
  simp only [textLines]
  induction text using lines_induction '\n' generalizing k with
  | last line apart =>
    cases k with
    | zero => exact ⟨[], List.nil_prefix, rfl⟩
    | succ k =>
      refine ⟨line, List.prefix_rfl, ?_⟩
      cases line with
      | nil => rfl
      | cons c line => rw [cutLines_of_not_mem apart (List.cons_ne_nil c line), List.take_succ_cons,
          List.take_nil]
  | more line rest apart ih =>
    cases k with
    | zero => exact ⟨[], List.nil_prefix, rfl⟩
    | succ k =>
      obtain ⟨front, ⟨tail, rfl⟩, cut⟩ := ih k
      refine ⟨line ++ '\n' :: front, ⟨tail, by simp⟩, ?_⟩
      rw [cutLines_append apart, cutLines_append apart, cut, List.take_succ_cons]

theorem Ends.of_emptyProgram {d : Diagnostic} (ends : Ends resource lines (.error d))
    (cause : d.cause = .emptyProgram) :
    (∃ e, Accepted lines e ∧ e.code = []) ∧ d.line = lines.length := by
  cases ends with
  | empty accepted no_code => exact ⟨⟨_, accepted, no_code⟩, rfl⟩
  | refused _ unaccepted =>
    exact absurd cause (Entries.accept_failsWithin _ _ _ unaccepted).ne_emptyProgram

theorem Accepted.read_eq {text : String} (accepted : Accepted (textLines text.toList) e)
    (resource : String) :
    (∃ p, read resource text = .ok p) ∨
      ∃ d, read resource text = .error d ∧ d.cause = .emptyProgram := by
  by_cases code : e.code = []
  · exact Or.inr ⟨_, read_eq_iff.mpr (.empty accepted code), rfl⟩
  · obtain ⟨p, built⟩ := accepted.exists_build code
    exact Or.inl ⟨p, read_eq_iff.mpr (.program accepted code built)⟩

/-- A text that is refused at one of its lines can be read down to the line above, and is refused
in just the same way whatever stands below. It is refused for want of an instruction when all lines
are accepted and none holds one, and then at its last line. -/
theorem first_refusal_decides (resource text : String) :
    (∀ d, read resource text = .error d → d.cause ≠ .emptyProgram →
      1 ≤ d.line ∧ d.line ≤ (textLines text.toList).length ∧
      (∃ front, front <+: text.toList ∧
        textLines front = (textLines text.toList).take (d.line - 1)) ∧
      (∀ front : String, textLines front.toList = (textLines text.toList).take (d.line - 1) →
        (∃ p, read resource front = .ok p) ∨
        ∃ d', read resource front = .error d' ∧ d'.cause = .emptyProgram) ∧
      ∀ other : String,
        (textLines other.toList).take d.line = (textLines text.toList).take d.line →
        read resource other = .error d) ∧
    ((∃ d, read resource text = .error d ∧ d.cause = .emptyProgram) ↔
      (∃ e, Accepted (textLines text.toList) e) ∧
      ∀ line ∈ textLines text.toList, (Line.ofText line).isCode = false) ∧
    ∀ d, read resource text = .error d → d.cause = .emptyProgram →
      d.line = (textLines text.toList).length := by
  refine ⟨fun d refused other_cause => ?_, ⟨?_, ?_⟩, fun d refused cause => ?_⟩
  · have alone := exists_isPrefix_textLines text.toList (d.line - 1)
    have ends := read_eq_iff.mp refused
    generalize textLines text.toList = lines at alone ends ⊢
    cases ends with
    | empty => exact absurd rfl other_cause
    | @refused front rest line e c accepted unaccepted =>
      have above : (front ++ line :: rest).take front.length = front := List.take_left
      have first : (front ++ line :: rest).take (front.length + 1) = front ++ [line] := by
        simp [List.take_append]
      refine ⟨Nat.succ_pos _, by simp, alone, fun before cut => ?_, fun other cut => ?_⟩
      · rw [Nat.add_sub_cancel, above] at cut
        rw [← cut] at accepted
        exact accepted.read_eq resource
      · have split : textLines other.toList =
            front ++ line :: (textLines other.toList).drop (front.length + 1) := by
          rw [List.append_cons, ← first, ← cut, List.take_append_drop]
        rw [read_eq_iff, split]
        exact .refused accepted unaccepted
  · rintro ⟨d, refused, cause⟩
    obtain ⟨⟨e, accepted, no_code⟩, -⟩ := (read_eq_iff.mp refused).of_emptyProgram cause
    exact ⟨⟨e, accepted⟩, accepted.code_eq_nil_iff.mp no_code⟩
  · rintro ⟨⟨e, accepted⟩, no_code⟩
    exact ⟨_, read_eq_iff.mpr (.empty accepted (accepted.code_eq_nil_iff.mpr no_code)), rfl⟩
  · exact ((read_eq_iff.mp refused).of_emptyProgram cause).2

theorem first_refusal_decides_origin :
    read "r" "#.origin 1\n#.origin z\nzz" =
      .error ⟨"r", 2, .duplicate .origin, none⟩ ∧
    read "r" "#.origin 1\n#.origin z\n#.word 1" = .error ⟨"r", 2, .duplicate .origin, none⟩ ∧
    (∃ d', read "r" "#.origin 1\n" = .error d' ∧ d'.cause = .emptyProgram) ∧
    ∀ line ∈ textLines "#.wrap 1\n\n# end".toList, (Line.ofText line).isCode = false := by
  have refused : read "r" "#.origin 1\n#.origin z\nzz" =
      .error ⟨"r", 2, .duplicate .origin, none⟩ := by decide +kernel
  obtain ⟨decides, -, -⟩ := first_refusal_decides "r" "#.origin 1\n#.origin z\nzz"
  obtain ⟨-, -, -, before, below⟩ := decides _ refused (by decide)
  have empty : read "r" "#.wrap 1\n\n# end" = .error ⟨"r", 3, .emptyProgram, none⟩ := by
    decide +kernel
  obtain ⟨-, no_code, -⟩ := first_refusal_decides "r" "#.wrap 1\n\n# end"
  refine ⟨refused, below _ (by decide +kernel), ?_, (no_code.mp ⟨_, empty, rfl⟩).2⟩
  refine (before "#.origin 1\n" (by decide +kernel)).resolve_left ?_
  rintro ⟨p, done⟩
  have other : read "r" "#.origin 1\n" = .error ⟨"r", 1, .emptyProgram, none⟩ := by decide +kernel
  cases other.symm.trans done

end PioBlock.Listing
