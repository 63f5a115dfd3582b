import PioBlock.Proofs.Listing.Bytes
import PioBlock.Proofs.Listing.Endings

/-! The number of a diagnostic. A line that is refused is counted before it is looked at, and what
is wrong at the end is told at the last line. So the number is that of a line, counted from 1, and
the line over a caret is that very line. Only the empty text has no last line: it is refused at
line 0. -/

namespace PioBlock.Listing

theorem textLines_ne_nil {text : List Char} (some_text : text ≠ []) : textLines text ≠ [] := by
  rw [textLines]
  induction text using lines_induction '\n' with
  | last line apart =>
    rw [cutLines_of_not_mem apart some_text]
    exact List.cons_ne_nil line []
  | more line rest apart _ =>
    rw [cutLines_append apart]
    exact List.cons_ne_nil _ _

/-- The diagnostic names one of the lines and quotes no other. -/
structure Diagnostic.Names (d : Diagnostic) (lines : List (List Char)) : Prop where
  one_le : 1 ≤ d.line
  le_length : d.line ≤ lines.length
  quotes : ∀ caret, d.caret = some caret → lines[d.line - 1]? = some caret.line

variable {resource : String} {lines : List (List Char)} {d : Diagnostic}

theorem Ends.names (ends : Ends resource lines (.error d)) (some_line : lines ≠ []) :
    d.Names lines := by
  cases ends with
  | empty accepted no_code =>
    exact ⟨List.length_pos_iff.mpr some_line, Nat.le_refl _, fun caret quoted => nomatch quoted⟩
  | @refused front rest line e c accepted unaccepted =>
    refine ⟨Nat.succ_pos _, by simp, fun caret quoted => ?_⟩
    obtain ⟨column, -, rfl⟩ := Option.map_eq_some_iff.mp quoted
    simp

theorem Ends.eq_of_nil (ends : Ends resource [] (.error d)) :
    d = ⟨resource, 0, .emptyProgram, none⟩ := by
  generalize none_left : ([] : List (List Char)) = lines at ends
  cases ends with
  | empty => rw [← none_left]; rfl
  | refused => exact absurd none_left (by simp)

theorem ends_of_bytes {bytes : List UInt8} {text : List Char} (spelt : decode? bytes = some text)
    {result : Except Diagnostic Program} (ended : readBytes resource bytes = result) :
    Ends resource (textLines text) result := by
  rw [decode?_eq_some_iff.mp spelt, readBytes, byteLines_encode, map_sourceOfBytes_encode] at ended
  exact ends_iff.mpr ended

/-- Whatever a text is refused for, as a string or as the bytes of a file, it is told at one of its
lines, unless the text is empty; the empty text is refused at line 0, where there is none. -/
theorem line_of_refused (resource text : String) {bytes : List UInt8}
    (spelt : decode? bytes = some text.toList) {d : Diagnostic}
    (refused : read resource text = .error d ∨ readBytes resource bytes = .error d) :
    (text ≠ "" → d.Names (textLines text.toList)) ∧
    (text = "" → d = ⟨resource, 0, .emptyProgram, none⟩) ∧
    (1 ≤ d.line ∧ d.line ≤ max 1 (textLines text.toList).length ↔ text ≠ "") := by
  have ends : Ends resource (textLines text.toList) (.error d) :=
    refused.elim read_eq_iff.mp (ends_of_bytes spelt)
  have named : text ≠ "" → d.Names (textLines text.toList) := fun some_text =>
    ends.names (textLines_ne_nil fun none => some_text (String.toList_eq_nil_iff.mp none))
  have empty : text = "" → d = ⟨resource, 0, .emptyProgram, none⟩ := by
    rintro rfl
    exact ends.eq_of_nil
  refine ⟨named, empty, ?_, fun some_text => ?_⟩
  · rintro ⟨one_le, -⟩ none
    rw [empty none] at one_le
    exact absurd one_le (Nat.not_succ_le_zero 0)
  · obtain ⟨one_le, le_length, -⟩ := named some_text
    exact ⟨one_le, le_max_of_le_right le_length⟩

theorem line_of_refused_last :
    decode? (encode "\n1\n#.program 9".toList) = some "\n1\n#.program 9".toList ∧
    ∃ d, (read "r" "\n1\n#.program 9" = .error d ∨
        readBytes "r" (encode "\n1\n#.program 9".toList) = .error d) ∧
      d.line = 3 ∧ d.caret.isSome = true ∧ d.Names (textLines "\n1\n#.program 9".toList) := by
  have spelt := decode?_encode "\n1\n#.program 9".toList
  have refused : read "r" "\n1\n#.program 9" = .error ⟨"r", 3, .invalidName (.badStart '9'),
      some ⟨11, "#.program 9".toList⟩⟩ := by decide +kernel
  exact ⟨spelt, _, .inl refused, rfl, rfl,
    (line_of_refused "r" _ spelt (.inl refused)).1 (by decide)⟩

/-- So it is not the case that each text is refused at one of its lines or, for want of any, at
line 1. -/
theorem not_line_always_exists :
    ¬ ∀ resource text d, read resource text = .error d →
      1 ≤ d.line ∧ d.line ≤ max 1 (textLines text.toList).length := by
  intro always
  have refused : read "r" "" = .error ⟨"r", 0, .emptyProgram, none⟩ := by decide +kernel
  exact absurd (always "r" "" _ refused).1 (by decide)

end PioBlock.Listing
