import PioBlock.Proofs.Listing.LineForms

/-! The parts of a directive on its line. Every line with a directive is put together from seven
texts, and the scanner finds the name and the argument among them, with the place of the argument.
-/

namespace PioBlock.Listing

/-- The texts that a line with a directive is put together from: blanks before the `#` and before
the dot, the name, blanks, the argument, blanks again, and what a semicolon cuts off. The last
blanks are those behind the name when there is no argument. -/
structure DirectiveParts where
  front : List Char
  gap : List Char
  name : List Char
  space : List Char
  argument : List Char
  back : List Char
  tail : List Char
  blank_front : AllBlank front
  blank_gap : AllBlank gap
  dot : name.head? = some '.'
  solid : NoBlank name
  blank_space : AllBlank space
  spaced : space = [] ↔ argument = []
  trimmed : Trimmed argument
  blank_back : AllBlank back
  open_ : ';' ∉ name ++ argument
  closed : ∀ c ∈ tail.head?, c = ';'

namespace DirectiveParts

variable (p : DirectiveParts)

def lead : List Char := p.front ++ '#' :: p.gap

/-- The directive, from its dot to the end of its argument. -/
def core : List Char := p.name ++ (p.space ++ p.argument)

def text : List Char := p.lead ++ (p.core ++ (p.back ++ p.tail))

def opening : List Char := p.lead ++ (p.name ++ p.space)

def directive : Directive := ⟨p.name, p.argument, p.opening.length + 1⟩

theorem text_eq : p.text = p.opening ++ (p.argument ++ (p.back ++ p.tail)) := by
  simp [text, core, opening]

theorem name_ne_nil : p.name ≠ [] := fun empty => by
  have dot := p.dot
  rw [empty] at dot
  cases dot

theorem core_last : ∀ c ∈ p.core.getLast?, isBlank c = false := by
  intro c last
  by_cases empty : p.argument = []
  · rw [core, empty, p.spaced.mpr empty, List.append_nil, List.append_nil] at last
    exact p.solid c (List.mem_of_getLast? last)
  · rw [core, ← List.append_assoc, List.getLast?_append_of_ne_nil _ empty] at last
    exact p.trimmed.2 c last

theorem space_head : ∀ c ∈ (p.space ++ p.argument).head?, isBlank c = true := by
  intro c first
  by_cases empty : p.space = []
  · rw [empty, p.spaced.mp empty] at first
    cases first
  · rw [List.head?_append_of_ne_nil _ empty] at first
    exact p.blank_space c (List.mem_of_mem_head? first)

theorem core_open : ∀ c ∈ p.core ++ p.back, c ≠ ';' := by
  rintro c member rfl
  have visible : isBlank ';' = false := by decide
  have hidden : ∀ {gap : List Char}, AllBlank gap → ';' ∉ gap := fun blank member => by
    rw [blank ';' member] at visible
    cases visible
  have outer := p.open_
  simp only [core, List.mem_append, hidden p.blank_space, hidden p.blank_back, false_or,
    or_false] at member outer
  exact outer member

theorem content_head : (p.core ++ (p.back ++ p.tail)).head? = some '.' := by
  rw [core, List.append_assoc, List.head?_append_of_ne_nil _ p.name_ne_nil, p.dot]

theorem takeWhile_content :
    (p.core ++ (p.back ++ p.tail)).takeWhile (· != ';') = p.core ++ p.back := by
  rw [← List.append_assoc]
  exact takeWhile_append (fun c member => by simpa using p.core_open c member)
    fun c first => by simpa using p.closed c first

theorem trimEnd_body : trimEnd (p.core ++ p.back) = p.core :=
  trimEnd_append p.blank_back p.core_last

theorem name_solid : ∀ c ∈ p.name, (!isBlank c) = true := fun c member => by
  simp [p.solid c member]

theorem space_stops : ∀ c ∈ (p.space ++ p.argument).head?, (!isBlank c) = false := fun c first => by
  simp [p.space_head c first]

theorem trimStart_argument : trimStart (p.space ++ p.argument) = p.argument :=
  trimStart_append p.blank_space p.trimmed.1

theorem ofText_text : Line.ofText p.text = .directive p.directive := by
  have whole : p.text = p.front ++ '#' :: (p.gap ++ (p.core ++ (p.back ++ p.tail))) := by
    simp [text, lead]
  have stop : ∀ c ∈ (p.core ++ (p.back ++ p.tail)).head?, isBlank c = false := by
    rintro c first
    cases p.content_head.symm.trans first
    exact isBlank_dot
  rw [whole, ofText_of_hash p.blank_front p.blank_gap stop, if_pos p.content_head, ← whole]
  have name : p.core.takeWhile (!isBlank ·) = p.name :=
    takeWhile_append p.name_solid p.space_stops
  have argument : trimStart (p.core.dropWhile (!isBlank ·)) = p.argument := by
    rw [core, dropWhile_append p.name_solid p.space_stops, p.trimStart_argument]
  have column : p.text.length - (p.core ++ (p.back ++ p.tail)).length +
      (p.core.length - p.argument.length) = p.opening.length := by
    simp only [text, core, opening, List.length_append]
    omega
  simp only [Directive.ofContent, p.takeWhile_content, p.trimEnd_body, name, argument, column]
  rfl

end DirectiveParts

theorem exists_directiveParts {line : List Char} {d : Directive}
    (holds : Line.ofText line = .directive d) :
    ∃ p : DirectiveParts, line = p.text ∧ d = p.directive := by
  suffices ∃ p : DirectiveParts, line = p.text by
    obtain ⟨p, rfl⟩ := this
    rw [p.ofText_text] at holds
    exact ⟨p, rfl, (Line.directive.inj holds).symm⟩
  have form := form_ofText line
  rw [holds] at form
  cases form with
  | @directive front gap name argument tail _ blank blank' dot solid cut open_ closed =>
    obtain ⟨core, back, rfl, blank_back, stop⟩ := exists_trimEnd argument
    obtain ⟨space, argument, rfl, blank_space, start⟩ := exists_split isBlank core
    have spaced : space = [] ↔ argument = [] := by
      constructor
      · rintro rfl
        cases argument with
        | nil => rfl
        | cons c argument => cases (cut c rfl).symm.trans (start c rfl)
      · rintro rfl
        rw [List.append_nil] at stop
        cases last : space.getLast? with
        | none => exact List.getLast?_eq_none_iff.mp last
        | some c => cases (blank_space c (List.mem_of_getLast? last)).symm.trans (stop c last)
    have ends : ∀ c ∈ argument.getLast?, isBlank c = false := fun c last =>
      stop c (List.mem_getLast?_append_of_mem_getLast? last)
    have closed_in : ';' ∉ name ++ argument := fun member => open_ (by
      simp only [List.mem_append] at member ⊢
      tauto)
    refine ⟨⟨front, gap, name, space, argument, back, tail, blank, blank', dot, solid, blank_space,
      spaced, ⟨start, ends⟩, blank_back, closed_in, closed⟩, ?_⟩
    simp [DirectiveParts.text, DirectiveParts.lead, DirectiveParts.core]

end PioBlock.Listing
