import PioBlock.Proofs.Listing.Grammar
import Mathlib.Data.List.Basic

/-! Which form a line has. The scanner cuts a line by trimming and by running up to a character;
each line is of one of four forms, and the scanner gives each form its own result. So whatever is
known of the result of the scanner is known of the line, and the other way round. -/

namespace PioBlock.Listing

/-- The forms of lines, with what the scanner makes of them. -/
inductive Form : List Char → Line → Prop where
  | blank {line : List Char} (blank : AllBlank line) : Form line .nothing
  | comment {front gap rest : List Char} (blank : AllBlank front) (blank' : AllBlank gap)
      (plain : ∀ c ∈ rest.head?, isBlank c = false ∧ c ≠ '.') :
      Form (front ++ '#' :: (gap ++ rest)) .nothing
  | directive {front gap name argument tail : List Char} {d : Directive} (blank : AllBlank front)
      (blank' : AllBlank gap) (dot : name.head? = some '.') (solid : NoBlank name)
      (cut : StartsBlank argument) (open_ : ';' ∉ name ++ argument)
      (closed : ∀ c ∈ tail.head?, c = ';') (name_eq : d.name = name)
      (trimmed : Trimmed d.argument) (words_eq : words d.argument = words argument) :
      Form (front ++ '#' :: (gap ++ (name ++ argument ++ tail))) (.directive d)
  | word {front text gap : List Char} (blank : AllBlank front) (blank' : AllBlank gap)
      (ne : text ≠ []) (mark : text.head? ≠ some '#') (trimmed : Trimmed text) :
      Form (front ++ (text ++ gap)) (.word text)

theorem trimStart_append {gap text : List Char} (blank : AllBlank gap)
    (stop : ∀ c ∈ text.head?, isBlank c = false) : trimStart (gap ++ text) = text :=
  dropWhile_append blank stop

theorem isBlank_hash : isBlank '#' = false := rfl

theorem isBlank_dot : isBlank '.' = false := rfl

theorem ofText_of_hash {front gap rest : List Char} (blank : AllBlank front)
    (blank' : AllBlank gap) (stop : ∀ c ∈ rest.head?, isBlank c = false) :
    Line.ofText (front ++ '#' :: (gap ++ rest)) =
      if rest.head? = some '.' then
        .directive (.ofContent (front ++ '#' :: (gap ++ rest)).length rest)
      else .nothing := by
  have start : trimStart (front ++ '#' :: (gap ++ rest)) = '#' :: (gap ++ rest) := by
    refine trimStart_append blank fun c hc => ?_
    cases hc
    exact isBlank_hash
  rw [Line.ofText, start]
  simp only [if_true, trimStart_append blank' stop]

theorem ofContent_parts {name argument tail : List Char} (length : Nat)
    (solid : NoBlank name) (cut : StartsBlank argument) (open_ : ';' ∉ name ++ argument)
    (closed : ∀ c ∈ tail.head?, c = ';') :
    (Directive.ofContent length (name ++ argument ++ tail)).name = name ∧
    Trimmed (Directive.ofContent length (name ++ argument ++ tail)).argument ∧
    words (Directive.ofContent length (name ++ argument ++ tail)).argument = words argument := by
  obtain ⟨core, gap, rfl, blank, stop⟩ := exists_trimEnd argument
  have upto : (name ++ (core ++ gap) ++ tail).takeWhile (· != ';') = name ++ (core ++ gap) := by
    refine takeWhile_append (fun c hc => ?_) fun c hc => ?_
    · have other : c ≠ ';' := fun eq => open_ (eq ▸ hc)
      simpa using other
    · simpa using closed c hc
  have last : ∀ c ∈ (name ++ core).getLast?, isBlank c = false := by
    intro c hc
    cases core with
    | nil =>
      rw [List.append_nil] at hc
      exact solid c (List.mem_of_getLast? hc)
    | cons d core =>
      rw [List.getLast?_append_cons] at hc
      exact stop c hc
  have body : trimEnd (name ++ (core ++ gap)) = name ++ core := by
    rw [← List.append_assoc, trimEnd_append blank last]
  have cut' : ∀ c ∈ core.head?, (!isBlank c) = false := by
    intro c hc
    have starts : isBlank c = true := by
      refine cut c ?_
      cases core with
      | nil => cases hc
      | cons d core => exact hc
    simp [starts]
  have solid' : ∀ c ∈ name, (!isBlank c) = true := fun c hc => by simp [solid c hc]
  obtain ⟨front, rest, rfl, blank', stop'⟩ := exists_split isBlank core
  have argument_eq :
      (Directive.ofContent length (name ++ ((front ++ rest) ++ gap) ++ tail)).argument = rest := by
    simp only [Directive.ofContent, upto, body, dropWhile_append solid' cut']
    exact trimStart_append blank' stop'
  have name_eq :
      (Directive.ofContent length (name ++ ((front ++ rest) ++ gap) ++ tail)).name = name := by
    simp only [Directive.ofContent, upto, body, takeWhile_append solid' cut']
  refine ⟨name_eq, ?_, ?_⟩
  · rw [argument_eq]
    refine ⟨stop', fun c hc => stop c ?_⟩
    cases rest with
    | nil => cases hc
    | cons d rest =>
      rwa [List.getLast?_append_cons]
  · rw [argument_eq, List.append_assoc, words_append_of_allBlank blank', words_append_blank _ blank]

theorem form_ofText (line : List Char) : Form line (.ofText line) := by
  obtain ⟨front, rest, rfl, blank, stop⟩ := exists_split isBlank line
  cases rest with
  | nil =>
    have nothing : Line.ofText (front ++ []) = .nothing := by
      rw [Line.ofText, trimStart_append blank stop]
    rw [nothing]
    exact .blank (by rwa [List.append_nil])
  | cons c rest =>
    by_cases hash : c = '#'
    · subst hash
      obtain ⟨gap, content, rfl, blank', stop'⟩ := exists_split isBlank rest
      rw [ofText_of_hash blank blank' stop']
      split
      · next dot =>
        obtain ⟨inner, tail, rfl, open_, closed⟩ := exists_split (· != ';') content
        obtain ⟨name, argument, rfl, solid, cut⟩ := exists_split (!isBlank ·) inner
        have solid' : NoBlank name := fun c hc => by simpa using solid c hc
        have cut' : StartsBlank argument := fun c hc => by simpa using cut c hc
        have dot' : name.head? = some '.' := by
          cases name with
          | cons d name => exact dot
          | nil =>
            cases argument with
            | cons d argument =>
              cases dot
              exact absurd (cut' _ rfl) (by decide)
            | nil =>
              cases tail with
              | nil => cases dot
              | cons d tail =>
                cases dot
                exact absurd (closed _ rfl) (by decide)
        have no_semicolon : ';' ∉ name ++ argument := fun h => by simpa using open_ _ h
        have closed' : ∀ c ∈ tail.head?, c = ';' := fun c hc => by simpa using closed c hc
        obtain ⟨name_eq, trimmed, words_eq⟩ := ofContent_parts
          (front ++ '#' :: (gap ++ (name ++ argument ++ tail))).length solid' cut'
          no_semicolon closed'
        exact .directive blank blank' dot' solid' cut' no_semicolon closed' name_eq trimmed words_eq
      · next dot =>
        exact .comment blank blank' fun c hc => ⟨stop' c hc, fun eq => dot (eq ▸ hc)⟩
    · have word : Line.ofText (front ++ c :: rest) = .word (trimEnd (c :: rest)) := by
        rw [Line.ofText, trimStart_append blank stop]
        simp only [hash, if_false]
      obtain ⟨text, gap, split, blank', back⟩ := exists_trimEnd (c :: rest)
      rw [word, split, trimEnd_append blank' back]
      cases text with
      | nil =>
        have first : c ∈ gap := by
          rw [← List.nil_append gap, ← split]
          exact List.mem_cons_self ..
        have blank_c := blank' c first
        rw [stop c rfl] at blank_c
        cases blank_c
      | cons d text =>
        cases split
        exact .word blank blank' (List.cons_ne_nil _ _) (by simpa using hash) ⟨stop, back⟩

inductive Gives : Line → Item → Prop where
  | nothing : Gives .nothing .nothing
  | directive {d : Directive} {item : Item} (trimmed : Trimmed d.argument)
      (meaning : Means d.name d.argument item) : Gives (.directive d) item
  | word {mark digits : List Char} {i : Instruction} (marks : mark ∈ [[], "0x".toList, "0X".toList])
      (spells : Numeral.Spells Numeral.hexDigit? 16 digits i.toNat) :
      Gives (.word (mark ++ digits)) (.code i)

theorem Means.congr {name argument argument' : List Char} {item : Item}
    (meaning : Means name argument item) (words_eq : words argument' = words argument) :
    Means name argument' item := by
  have tokens : ∀ {ts}, Tokens argument ts → Tokens argument' ts := fun h =>
    words_eq_iff.mp (words_eq.trans h.words_eq)
  cases meaning with
  | other unknown => exact .other unknown
  | known named asks =>
    refine .known named ?_
    cases asks with
    | program one valid => exact .program (tokens one) valid
    | origin one decimal => exact .origin (tokens one) decimal
    | anywhere one decimal => exact .anywhere (tokens one) decimal
    | wrap one decimal => exact .wrap (tokens one) decimal
    | wrapTarget one decimal => exact .wrapTarget (tokens one) decimal
    | sideSet some decimal few known isOptional pindirs fits =>
      exact .sideSet (tokens some) decimal few known isOptional pindirs fits
    | word one decimal => exact .word (tokens one) decimal

theorem isBlank_eq_false_of_hexDigit? {c : Char} {d : Nat} (h : Numeral.hexDigit? c = some d) :
    isBlank c = false := by
  have code : 48 ≤ c.toNat ∧ c.toNat ≤ 57 ∨ 97 ≤ c.toNat ∧ c.toNat ≤ 102 ∨
      65 ≤ c.toNat ∧ c.toNat ≤ 70 := by
    unfold Numeral.hexDigit? at h
    split at h
    · next range => exact Or.inl range
    · split at h
      · next range => exact Or.inr (Or.inl range)
      · split at h
        · next range => exact Or.inr (Or.inr range)
        · cases h
  exact isBlank_eq_false_of_visible (by omega)

theorem ofText_word {front text gap : List Char} (blank : AllBlank front) (blank' : AllBlank gap)
    (ne : text ≠ []) (solid : NoBlank text) (mark : text.head? ≠ some '#') :
    Line.ofText (front ++ (text ++ gap)) = .word text := by
  have last : ∀ c ∈ text.getLast?, isBlank c = false := fun c hc =>
    solid c (List.mem_of_getLast? hc)
  cases text with
  | nil => exact absurd rfl ne
  | cons c text =>
    have start : trimStart (front ++ (c :: text ++ gap)) = c :: text ++ gap := by
      refine trimStart_append blank fun d hd => ?_
      cases hd
      exact solid c (List.mem_cons_self ..)
    have other : c ≠ '#' := fun eq => mark (congrArg some eq)
    rw [Line.ofText, start]
    simp only [List.cons_append, other, if_false]
    exact congrArg Line.word (trimEnd_append blank' last)

theorem solid_of_spells {mark digits : List Char} {value : Nat}
    (marks : mark ∈ [[], "0x".toList, "0X".toList])
    (spells : Numeral.Spells Numeral.hexDigit? 16 digits value) :
    NoBlank (mark ++ digits) ∧ (mark ++ digits).head? ≠ some '#' := by
  have solid : NoBlank digits := fun c hc =>
    isBlank_eq_false_of_hexDigit? (spells.exists_digit hc).choose_spec
  have solid_mark : NoBlank mark := by
    simp only [List.mem_cons, List.not_mem_nil, or_false] at marks
    rcases marks with rfl | rfl | rfl
    · simp [NoBlank]
    · simp [NoBlank, isBlank, blankRanges]
    · simp [NoBlank, isBlank, blankRanges]
  refine ⟨fun c hc => ?_, ?_⟩
  · rcases List.mem_append.mp hc with hc | hc
    · exact solid_mark c hc
    · exact solid c hc
  · simp only [List.mem_cons, List.not_mem_nil, or_false] at marks
    rcases marks with rfl | rfl | rfl
    · intro hash
      obtain ⟨d, digit⟩ := spells.exists_digit (List.mem_of_mem_head? hash)
      cases digit
    · simp
    · simp

theorem gives_of_reads {line : List Char} {item : Item} (reads : Reads line item) :
    Gives (.ofText line) item := by
  cases reads with
  | blank blank =>
    have nothing : Line.ofText line = .nothing := by
      have start : trimStart (line ++ []) = [] := trimStart_append blank nofun
      rw [List.append_nil] at start
      rw [Line.ofText, start]
    rw [nothing]
    exact .nothing
  | comment blank blank' plain =>
    rw [ofText_of_hash blank blank' fun c hc => (plain c hc).1, if_neg]
    · exact .nothing
    · exact fun dot => (plain _ dot).2 rfl
  | @directive front gap name argument tail item blank blank' dot solid cut open_ closed meaning =>
    obtain ⟨name_eq, trimmed, words_eq⟩ := ofContent_parts
      (front ++ '#' :: (gap ++ (name ++ argument ++ tail))).length solid cut open_ closed
    have first : (name ++ argument ++ tail).head? = some '.' := by
      cases name with
      | nil => cases dot
      | cons c name => exact dot
    rw [ofText_of_hash blank blank' (fun c hc => ?_), if_pos first]
    · rw [← name_eq] at meaning
      exact .directive trimmed (meaning.congr words_eq)
    · cases first.symm.trans hc
      exact isBlank_dot
  | @word front mark digits gap i blank blank' marks spells =>
    obtain ⟨solid, hash⟩ := solid_of_spells marks spells
    have ne : mark ++ digits ≠ [] := fun empty => spells.1 (List.append_eq_nil_iff.mp empty).2
    rw [ofText_word blank blank' ne solid hash]
    exact .word marks spells

theorem reads_iff {line : List Char} {item : Item} :
    Reads line item ↔ Gives (.ofText line) item := by
  refine ⟨gives_of_reads, fun gives => ?_⟩
  have form := form_ofText line
  generalize Line.ofText line = scanned at form gives
  cases form with
  | blank blank =>
    cases gives
    exact .blank blank
  | comment blank blank' plain =>
    cases gives
    exact .comment blank blank' plain
  | directive blank blank' dot solid cut open_ closed name_eq trimmed words_eq =>
    cases gives with
    | directive _ meaning =>
      rw [name_eq] at meaning
      exact .directive blank blank' dot solid cut open_ closed (meaning.congr words_eq.symm)
  | word blank blank' ne mark trimmed =>
    cases gives with
    | word marks spells => exact .word blank blank' marks spells

end PioBlock.Listing
