import PioBlock.Proofs.Listing.Endings
import PioBlock.Proofs.Listing.Slices

/-! What is told of a program name that is none. The column is that of the first character of the
argument that breaks the rule of names, or the one behind the directive when there is no argument,
and the caret stands under it. -/

namespace PioBlock.Listing

/-- The mark stands under the column: before it is a tab under each tab of the line and a space
under each other character. -/
structure Caret.Marks (c : Caret) : Prop where
  column_pos : 1 ≤ c.column
  column_le : c.column ≤ c.line.length + 1
  length_eq : c.marker.length = c.column
  mark : c.marker[c.column - 1]? = some '^'
  indent : ∀ i < c.column - 1, ∃ d, c.line[i]? = some d ∧
    c.marker[i]? = some (if d = '\t' then '\t' else ' ')

theorem Caret.marks {c : Caret} (pos : 1 ≤ c.column) (le : c.column ≤ c.line.length + 1) :
    c.Marks := by
  have length := Caret.length_marker le
  have before : c.indent.length = c.column - 1 := by
    rw [indent, List.length_map, List.length_take]
    omega
  refine ⟨pos, le, by omega, ?_, fun i lt => ?_⟩
  · rw [marker, List.getElem?_append_right (by omega), before, Nat.sub_self]
    rfl
  · have inside : i < c.line.length := by omega
    refine ⟨c.line[i], List.getElem?_eq_getElem inside, ?_⟩
    rw [marker, List.getElem?_append_left (by omega), indent, List.getElem?_map,
      List.getElem?_take_of_lt lt, List.getElem?_eq_getElem inside]
    rfl

/-- The fault of the argument as a name is found at the column: the first character that breaks the
rule stands there. A missing argument is missed right behind the directive. -/
def DirectiveParts.FaultAt (p : DirectiveParts) (column : ℕ) : NameFault → Prop
  | .missing => p.argument = [] ∧ column = (p.lead ++ p.name).length + 1
  | .badStart c => isNameStart c = false ∧ p.text[column - 1]? = some c ∧
      ∃ rest, p.argument = c :: rest ∧ column = p.opening.length + 1
  | .badRest c => isNameRest c = false ∧ p.text[column - 1]? = some c ∧
      ∃ good rest, IsIdentifier good ∧ p.argument = good ++ c :: rest ∧
        column = (p.opening ++ good).length + 1

theorem DirectiveParts.faultAt {p : DirectiveParts} {n : ℕ} {fault : NameFault}
    (first : FirstFault p.argument n fault) : p.FaultAt (p.opening.length + 1 + n) fault := by
  have whole := p.text_eq
  generalize same : p.argument = argument at first
  cases first with
  | missing =>
    refine ⟨same, ?_⟩
    rw [opening, p.spaced.mpr same, List.append_nil]
  | @badStart c rest bad =>
    refine ⟨bad, ?_, rest, same, rfl⟩
    rw [whole, same]
    simp
  | @badRest good c rest valid bad =>
    have column : p.opening.length + 1 + good.length = (p.opening ++ good).length + 1 := by
      rw [List.length_append, Nat.add_right_comm]
    have split : p.text = p.opening ++ good ++ c :: (rest ++ (p.back ++ p.tail)) := by
      rw [whole, same]
      simp
    refine ⟨bad, ?_, good, rest, valid, same, column⟩
    rw [column, split]
    simp

theorem DirectiveParts.column_le {p : DirectiveParts} {n : ℕ} {fault : NameFault}
    (first : FirstFault p.argument n fault) : p.opening.length + 1 + n ≤ p.text.length + 1 := by
  have inside := first.le_length
  rw [p.text_eq, List.length_append, List.length_append]
  omega

theorem Refused.of_invalidName {line : List Char} {c : Complaint} {fault : NameFault}
    (refused : Refused (.ofText line) c) (cause : c.cause = .invalidName fault) :
    ∃ (p : DirectiveParts) (n : ℕ), line = p.text ∧ p.name = ".program".toList ∧
      FirstFault p.argument n fault ∧ c.column = some (p.opening.length + 1 + n) := by
  generalize holds : Line.ofText line = scanned at refused
  cases refused with
  | @first _ other first =>
    have same : other = .invalidName fault := cause
    rw [same] at first
    cases first
  | long => cases cause
  | @name d n _ named faulty =>
    cases cause
    obtain ⟨p, rfl, rfl⟩ := exists_directiveParts holds
    exact ⟨p, n, rfl, named, firstFault_of_nameFault? faulty, rfl⟩

/-- No slice of a line lies outside of it or ends inside a character. A program name that is none is
told with its line and the column of its fault, and the mark stands under that column. -/
theorem name_faults_located (resource text : String) :
    (∀ (e : Entries) (line : List Char), e.acceptLine? line = some (e.accept (.ofText line))) ∧
    ∀ d fault, read resource text = .error d → d.cause = .invalidName fault →
      ∃ (p : DirectiveParts) (column : ℕ), p.name = ".program".toList ∧
        (textLines text.toList)[d.line - 1]? = some p.text ∧
        d.caret = some ⟨column, p.text⟩ ∧ p.FaultAt column fault ∧
        (∀ c, fault = .badStart c ∨ fault = .badRest c →
          ∃ told, d.cause.message = told ++ quoted c) ∧
        Caret.Marks ⟨column, p.text⟩ ∧
        d.message = s!"{d.location}: error: {d.cause.message}\n" ++ String.ofList p.text ++ "\n" ++
          String.ofList (Caret.marker ⟨column, p.text⟩) := by
  refine ⟨fun e line => e.acceptLine?_eq line, fun d fault refused cause => ?_⟩
  have ends := read_eq_iff.mp refused
  generalize textLines text.toList = lines at ends ⊢
  cases ends with
  | empty => cases cause
  | @refused front rest line e c accepted unaccepted =>
    obtain ⟨p, n, rfl, named, first, column⟩ :=
      (e.accept_failsWithin _ c unaccepted).of_invalidName cause
    have place : (front ++ p.text :: rest)[front.length]? = some p.text := by simp
    rw [column]
    have pos : 1 ≤ p.opening.length + 1 + n := by omega
    refine ⟨p, _, named, place, rfl, DirectiveParts.faultAt first, fun bad quotes => ?_,
      Caret.marks pos (DirectiveParts.column_le first), ?_⟩
    · have cause : c.cause = .invalidName fault := cause
      obtain rfl | rfl := quotes
      · refine ⟨"invalid program name: name must start with a letter or '_', found ", ?_⟩
        rw [cause]
        rfl
      · refine ⟨"invalid program name: unexpected character ", ?_⟩
        rw [cause]
        rfl
    · rfl

theorem name_faults_located_wide :
    (∃ p : DirectiveParts, p.text = "\t#\u00a0.program\u3000aé b ; x".toList ∧
      p.FaultAt 14 (.badRest 'é') ∧ Caret.Marks ⟨14, p.text⟩) ∧
    ∃ p : DirectiveParts, p.text = "#.program  ; blink".toList ∧
      p.FaultAt 10 .missing ∧ Caret.Marks ⟨10, p.text⟩ := by
  have wide : read "r" "e081\n\t#\u00a0.program\u3000aé b ; x" =
      .error ⟨"r", 2, .invalidName (.badRest 'é'),
        some ⟨14, "\t#\u00a0.program\u3000aé b ; x".toList⟩⟩ := by
    decide +kernel
  have missing : read "r" "#.program  ; blink" = .error
      ⟨"r", 1, .invalidName .missing, some ⟨10, "#.program  ; blink".toList⟩⟩ := by
    decide +kernel
  obtain ⟨p, _, -, -, caret, found, -, marks, -⟩ := (name_faults_located _ _).2 _ _ wide rfl
  obtain ⟨q, _, -, -, caret', found', -, marks', -⟩ := (name_faults_located _ _).2 _ _ missing rfl
  obtain ⟨rfl, line⟩ := Caret.mk.inj (Option.some.inj caret)
  obtain ⟨rfl, line'⟩ := Caret.mk.inj (Option.some.inj caret')
  exact ⟨⟨p, line.symm, found, marks⟩, q, line'.symm, found', marks'⟩

end PioBlock.Listing
