import PioBlock.Proofs.Listing.Lines
import PioBlock.Proofs.Listing.WellFormed

/-! How the reading of lines ends. The lines are accepted one after the other, each by the entries
of those above it, to the last or up to the first that is not accepted. In the latter case the
reading ends there, and otherwise only the want of an instruction keeps it from a program. -/

namespace PioBlock.Listing

/-- Each line is accepted by the entries of those above it, and these are the entries of all. -/
inductive Accepted : List (List Char) → Entries → Prop where
  | nil : Accepted [] .empty
  | concat {lines : List (List Char)} {line : List Char} {e e' : Entries} (above : Accepted lines e)
      (accepted : e.accept (.ofText line) = .ok e') : Accepted (lines ++ [line]) e'

/-- How the reading of lines ends: with a program, for want of an instruction, or at the first line
that is refused. -/
inductive Ends (resource : String) : List (List Char) → Except Diagnostic Program → Prop where
  | program {lines : List (List Char)} {e : Entries} {p : Program} (accepted : Accepted lines e)
      (some_code : e.code ≠ []) (built : e.draft.build = .ok p) : Ends resource lines (.ok p)
  | empty {lines : List (List Char)} {e : Entries} (accepted : Accepted lines e)
      (no_code : e.code = []) :
      Ends resource lines (.error ⟨resource, lines.length, .emptyProgram, none⟩)
  | refused {front rest : List (List Char)} {line : List Char} {e : Entries} {c : Complaint}
      (accepted : Accepted front e) (refused : e.accept (.ofText line) = .error c) :
      Ends resource (front ++ line :: rest)
        (.error ⟨resource, front.length + 1, c.cause, c.column.map (⟨·, line⟩)⟩)

variable {resource : String} {lines : List (List Char)} {e : Entries}

theorem Accepted.steps_eq (accepted : Accepted lines e) (resource : String) :
    Progress.start.steps resource (lines.map .ok) = .ok ⟨lines.length, e⟩ := by
  induction accepted with
  | nil => rfl
  | concat _ taken ih =>
    rw [List.map_append, Progress.steps_append, ih, List.length_append]
    simp only [Except.bind, List.map_cons, List.map_nil, Progress.steps, Progress.step, taken,
      List.length_singleton]

theorem accepted_or_refused (lines : List (List Char)) :
    (∃ e, Accepted lines e) ∨ ∃ front line rest e c, lines = front ++ line :: rest ∧
      Accepted front e ∧ e.accept (.ofText line) = .error c := by
  induction lines using List.reverseRecOn with
  | nil => exact Or.inl ⟨_, .nil⟩
  | append_singleton lines last ih =>
    obtain ⟨e, above⟩ | ⟨front, line, rest, e, c, rfl, above, refused⟩ := ih
    · cases taken : e.accept (.ofText last) with
      | ok e' => exact Or.inl ⟨e', .concat above taken⟩
      | error c => exact Or.inr ⟨lines, last, [], e, c, rfl, above, taken⟩
    · exact Or.inr ⟨front, line, rest ++ [last], e, c, by simp, above, refused⟩

theorem Accepted.exists_items (accepted : Accepted lines e) :
    ∃ items, List.Forall₂ Reads lines items ∧ Fits items ∧ e = .collect items := by
  obtain ⟨items, reads, fits, same⟩ :=
    (Progress.steps_eq_ok_iff fits_nil).mp (accepted.steps_eq "")
  exact ⟨items, reads, fits, congrArg Progress.entries same⟩

theorem Accepted.exists_build (accepted : Accepted lines e) (some_code : e.code ≠ []) :
    ∃ p, e.draft.build = .ok p := by
  obtain ⟨items, -, fits, rfl⟩ := accepted.exists_items
  obtain ⟨p, built, -⟩ := build_collect items (List.length_pos_iff.mpr some_code) fits.code_fits
  exact ⟨p, built⟩

theorem exists_ends (resource : String) (lines : List (List Char)) :
    ∃ result, Ends resource lines result := by
  obtain ⟨e, accepted⟩ | ⟨front, line, rest, e, c, rfl, accepted, refused⟩ :=
    accepted_or_refused lines
  · by_cases code : e.code = []
    · exact ⟨_, .empty accepted code⟩
    · obtain ⟨p, built⟩ := accepted.exists_build code
      exact ⟨_, .program accepted code built⟩
  · exact ⟨_, .refused accepted refused⟩

theorem Ends.readLines_eq {result : Except Diagnostic Program} (ends : Ends resource lines result) :
    readLines resource (lines.map .ok) = result := by
  cases ends with
  | program accepted some_code built =>
    rw [readLines, accepted.steps_eq]
    exact Progress.finish_eq_ok_iff.mpr ⟨some_code, built⟩
  | empty accepted no_code =>
    rw [readLines, accepted.steps_eq]
    exact if_pos (List.isEmpty_iff.mpr no_code)
  | refused accepted refused =>
    rw [readLines, List.map_append, Progress.steps_append, accepted.steps_eq]
    simp only [Except.bind, List.map_cons, Progress.steps, Progress.step, refused]
    rfl

/-- Reading ends in one of the three ways, and in one way only. -/
theorem ends_iff {result : Except Diagnostic Program} :
    Ends resource lines result ↔ readLines resource (lines.map .ok) = result := by
  refine ⟨Ends.readLines_eq, ?_⟩
  rintro rfl
  obtain ⟨result, ends⟩ := exists_ends resource lines
  rwa [ends.readLines_eq]

theorem read_eq_iff {text : String} {result : Except Diagnostic Program} :
    read resource text = result ↔ Ends resource (textLines text.toList) result := ends_iff.symm

end PioBlock.Listing
