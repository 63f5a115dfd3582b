import PioBlock.Proofs.Listing.Endings
import PioBlock.Proofs.Listing.Written

/-! Lines that say nothing. A blank line, a comment, or a directive of an unknown name may be
inserted anywhere in a listing: the entries go past it unchanged, so the program stays the same, and
what is refused is refused for the same cause at the same place, only that the line may have moved
down by one. -/

namespace PioBlock.Listing

/-- A line that says nothing: it is blank, or a comment, or its directive has none of the names that
count, where a blank or a semicolon ends the name. -/
inductive Ignorable : List Char → Prop where
  | blank {line : List Char} (blank : AllBlank line) : Ignorable line
  | comment {front gap rest : List Char} (blank : AllBlank front) (blank' : AllBlank gap)
      (plain : ∀ c ∈ rest.head?, isBlank c = false ∧ c ≠ '.') :
      Ignorable (front ++ '#' :: (gap ++ rest))
  | directive {front gap name rest : List Char} (blank : AllBlank front) (blank' : AllBlank gap)
      (dot : name.head? = some '.') (solid : NoBlank name) (open_ : ';' ∉ name)
      (ended : ∀ c ∈ rest.head?, isBlank c = true ∨ c = ';')
      (unknown : ∀ k : Keyword, name ≠ k.name.toList) :
      Ignorable (front ++ '#' :: (gap ++ (name ++ rest)))

namespace Ignorable

variable {line : List Char}

theorem reads (ignorable : Ignorable line) : Reads line .nothing := by
  cases ignorable with
  | blank blank => exact .blank blank
  | comment blank blank' plain => exact .comment blank blank' plain
  | @directive front gap name rest blank blank' dot solid open_ ended unknown =>
    obtain ⟨argument, tail, rfl, inside, closed⟩ := exists_split (· != ';') rest
    have inside : ';' ∉ argument := fun member => by simpa using inside ';' member
    have cut : StartsBlank argument := fun c first =>
      (ended c (List.mem_head?_append_of_mem_head? first)).resolve_right fun same =>
        inside (same ▸ List.mem_of_mem_head? first)
    rw [← List.append_assoc name]
    exact .directive blank blank' dot solid cut
      (fun member => (List.mem_append.mp member).elim open_ inside)
      (fun c first => by simpa using closed c first) (.other unknown)

theorem of_append_ret (ignorable : Ignorable (line ++ ['\r'])) : Ignorable line := by
  generalize whole : line ++ ['\r'] = text at ignorable
  cases ignorable with
  | blank blank =>
    subst whole
    exact .blank fun c member => blank c (List.mem_append_left _ member)
  | @comment front gap rest blank blank' plain =>
    obtain rfl | ⟨rest, last, rfl⟩ := List.eq_nil_or_concat' rest
    · obtain rfl | ⟨gap, last, rfl⟩ := List.eq_nil_or_concat' gap
      · cases (List.append_inj' whole rfl).2
      · have split : line ++ ['\r'] = (front ++ '#' :: (gap ++ [])) ++ [last] := by simp [whole]
        obtain ⟨rfl, -⟩ := List.append_inj' split rfl
        exact .comment blank (fun c member => blank' c (List.mem_append_left _ member)) nofun
    · have split : line ++ ['\r'] = (front ++ '#' :: (gap ++ rest)) ++ [last] := by simp [whole]
      obtain ⟨rfl, -⟩ := List.append_inj' split rfl
      exact .comment blank blank' fun c first => plain c (List.mem_head?_append_of_mem_head? first)
  | @directive front gap name rest blank blank' dot solid open_ ended unknown =>
    obtain rfl | ⟨rest, last, rfl⟩ := List.eq_nil_or_concat' rest
    · -- The name would end with the carriage return, which is blank.
      obtain rfl | ⟨name, last, rfl⟩ := List.eq_nil_or_concat' name
      · cases dot
      · have split : line ++ ['\r'] = (front ++ '#' :: (gap ++ name)) ++ [last] := by simp [whole]
        obtain ⟨-, same⟩ := List.append_inj' split rfl
        cases same
        have blank_ret : isBlank '\r' = false := solid '\r' (by simp)
        cases blank_ret
    · have split : line ++ ['\r'] = (front ++ '#' :: (gap ++ (name ++ rest))) ++ [last] := by
        simp [whole]
      obtain ⟨rfl, -⟩ := List.append_inj' split rfl
      exact .directive blank blank' dot solid open_
        (fun c first => ended c (List.mem_head?_append_of_mem_head? first)) unknown

theorem chop (ignorable : Ignorable line) : Ignorable (chop '\r' line) := by
  rcases eq_chop_or '\r' line with same | same
  · rwa [← same]
  · rw [same] at ignorable
    exact ignorable.of_append_ret

end Ignorable

theorem Entries.accept_of_reads_nothing {line : List Char} (reads : Reads line .nothing)
    (e : Entries) : e.accept (.ofText line) = .ok e := by
  have gives := gives_of_reads reads
  generalize Line.ofText line = scanned at gives
  cases gives with
  | nothing => rfl
  | directive _ meaning =>
    cases meaning with
    | other unknown => rw [accept, ofName?_eq_none_iff.mpr unknown]
    | known _ asks => cases asks

variable {resource : String} {before after : List (List Char)} {extra : List Char} {e : Entries}

theorem accepted_concat_iff {lines : List (List Char)} {line : List Char} :
    Accepted (lines ++ [line]) e ↔
      ∃ e', Accepted lines e' ∧ e'.accept (.ofText line) = .ok e := by
  constructor
  · intro accepted
    generalize whole : lines ++ [line] = all at accepted
    cases accepted with
    | nil => cases List.append_ne_nil_of_right_ne_nil _ (List.cons_ne_nil _ _) whole
    | concat above taken =>
      obtain ⟨rfl, last⟩ := List.append_inj' whole rfl
      cases last
      exact ⟨_, above, taken⟩
  · rintro ⟨e', above, taken⟩
    exact .concat above taken

/-- The same diagnostic after one more line was put in as line `p`. -/
def Diagnostic.moved (p : ℕ) (d : Diagnostic) : Diagnostic :=
  { d with line := if p ≤ d.line ∨ d.cause = .emptyProgram then d.line + 1 else d.line }

section Insertion

variable (skipped : ∀ e : Entries, e.accept (.ofText extra) = .ok e)
include skipped

theorem Accepted.insert (accepted : Accepted (before ++ after) e) :
    Accepted (before ++ extra :: after) e := by
  induction after using List.reverseRecOn generalizing e with
  | nil =>
    rw [List.append_nil] at accepted
    exact .concat accepted (skipped e)
  | append_singleton after line ih =>
    rw [← List.append_assoc, accepted_concat_iff] at accepted
    obtain ⟨e', above, taken⟩ := accepted
    rw [← List.cons_append, ← List.append_assoc]
    exact .concat (ih above) taken

theorem Ends.insert {result : Except Diagnostic Program}
    (ends : Ends resource (before ++ after) result) :
    Ends resource (before ++ extra :: after) (result.mapError (·.moved (before.length + 1))) := by
  generalize whole : before ++ after = lines at ends
  cases ends with
  | program accepted some_code built =>
    subst whole
    exact .program (accepted.insert skipped) some_code built
  | empty accepted no_code =>
    subst whole
    have count : (before ++ extra :: after).length = (before ++ after).length + 1 := by simp; omega
    have ends : Ends resource _ _ := .empty (accepted.insert skipped) no_code
    rw [count] at ends
    simpa [Except.mapError, Diagnostic.moved] using ends
  | @refused front rest line e c accepted unaccepted =>
    have other := (Entries.accept_failsWithin _ _ _ unaccepted).ne_emptyProgram
    have below : ∀ mid, front = before ++ mid → after = mid ++ line :: rest →
        Ends resource (before ++ extra :: after) (.error
          ⟨resource, front.length + 1 + 1, c.cause, c.column.map (⟨·, line⟩)⟩) := by
      rintro mid rfl rfl
      have ends : Ends resource (before ++ extra :: mid ++ line :: rest) _ :=
        .refused (accepted.insert skipped) unaccepted
      have count : (before ++ extra :: mid).length = (before ++ mid).length + 1 := by simp; omega
      rwa [count, List.append_assoc, List.cons_append] at ends
    rcases List.append_eq_append_iff.mp whole with ⟨mid, rfl, split⟩ | ⟨mid, rfl, split⟩
    · simpa [Except.mapError, Diagnostic.moved] using below mid rfl split
    · cases mid with
      | nil => simpa [Except.mapError, Diagnostic.moved] using below [] (by simp) split.symm
      | cons line' mid =>
        cases split
        have ends : Ends resource (front ++ line :: (mid ++ extra :: after)) _ :=
          .refused accepted unaccepted
        simpa [Except.mapError, Diagnostic.moved, other] using ends

end Insertion

/-- A line that says nothing may be inserted anywhere, as the line after those `before`. The
program stays the same; what is refused is refused alike, and its line moves down by one when it is
not above that place or when the text is refused for want of an instruction. -/
theorem read_insert_ignorable (resource : String) {before after : List (List Char)}
    {extra : List Char} (plain : ∀ line ∈ before ++ extra :: after, '\n' ∉ line)
    (ignorable : Ignorable extra) :
    read resource (.ofList (textOf (before ++ extra :: after))) =
      (read resource (.ofList (textOf (before ++ after)))).mapError
        (·.moved (before.length + 1)) := by
  have cut : ∀ lines : List (List Char), (∀ line ∈ lines, '\n' ∉ line) →
      textLines (String.ofList (textOf lines)).toList = lines.map (chop '\r') := by
    intro lines apart
    rw [String.toList_ofList]
    exact cutLines_flatMap_eq_map_chop apart
  have skipped := Entries.accept_of_reads_nothing ignorable.chop.reads
  have apart : ∀ line ∈ before ++ after, '\n' ∉ line := fun line member => by
    refine plain line (List.mem_append.mpr ((List.mem_append.mp member).imp_right ?_))
    exact List.mem_cons_of_mem extra
  have ends := read_eq_iff.mp (Eq.refl (read resource (.ofList (textOf (before ++ after)))))
  rw [cut _ apart, List.map_append] at ends
  rw [read_eq_iff, cut _ plain, List.map_append, List.map_cons]
  have inserted := ends.insert skipped
  rwa [List.length_map] at inserted

theorem read_insert_ignorable_wrapper :
    read "r" "#.wrap 3\nzz\n" = .error ⟨"r", 2, .invalidInstruction "zz", none⟩ ∧
    read "r" "#.wrap 3\n#.wrapper 40\r\nzz\n" = .error ⟨"r", 3, .invalidInstruction "zz", none⟩ ∧
    read "r" "#.wrap 3\nzz\n# .wrapper;\n" = .error ⟨"r", 2, .invalidInstruction "zz", none⟩ := by
  have unknown : ∀ k : Keyword, ".wrapper".toList ≠ k.name.toList := fun k => by
    cases k <;> decide
  have solid : NoBlank ".wrapper".toList := noBlank_iff.mpr (by decide)
  have space : AllBlank [' '] := fun c member => by
    rw [List.mem_singleton.mp member]
    rfl
  have first : Ignorable "#.wrapper 40\r".toList :=
    @Ignorable.directive [] [] ".wrapper".toList (' ' :: "40\r".toList) nofun nofun rfl solid
      (by decide) (fun c here => Or.inl (Option.some.inj here ▸ rfl)) unknown
  have last : Ignorable "# .wrapper;".toList :=
    @Ignorable.directive [] [' '] ".wrapper".toList [';'] nofun space rfl solid
      (by decide) (fun c here => Or.inr (Option.some.inj here).symm) unknown
  have refused : read "r" "#.wrap 3\nzz\n" = .error ⟨"r", 2, .invalidInstruction "zz", none⟩ := by
    decide +kernel
  have above := @read_insert_ignorable "r" ["#.wrap 3".toList] ["zz".toList] _ (by decide) first
  have below := @read_insert_ignorable "r" ["#.wrap 3".toList, "zz".toList] [] _ (by decide) last
  have written : String.ofList (textOf ["#.wrap 3".toList, "zz".toList]) = "#.wrap 3\nzz\n" := by
    decide
  simp only [List.singleton_append, List.append_nil, written, refused] at above below
  exact ⟨refused, above, below⟩

end PioBlock.Listing
