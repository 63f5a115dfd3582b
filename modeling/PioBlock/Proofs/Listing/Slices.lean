import PioBlock.Proofs.Listing.DirectiveParts
import Mathlib.Data.String.Basic

/-! Lines cut at byte offsets. The parts of a line are slices of its bytes in UTF-8, and a slice is
there only when both of its ends lie between two characters. The scanner is written down here once
more with such offsets, so that a slice which is not there leaves it without a result. It always has
one, and that is what the entries make of the line. -/

namespace PioBlock.Listing

open String (utf8Len)

/-- Cuts a text at a byte offset. There is no result when the offset lies beyond the end or inside a
character. -/
def splitAt? : ℕ → List Char → Option (List Char × List Char)
  | 0, text => some ([], text)
  | _ + 1, [] => none
  | n + 1, c :: rest =>
    if c.utf8Size ≤ n + 1 then
      (splitAt? (n + 1 - c.utf8Size) rest).map fun (front, back) => (c :: front, back)
    else none

theorem splitAt?_append (front back : List Char) :
    splitAt? (utf8Len front) (front ++ back) = some (front, back) := by
  induction front with
  | nil => cases back <;> rfl
  | cons c front ih =>
    obtain ⟨n, total⟩ : ∃ n, utf8Len front + c.utf8Size = n + 1 :=
      Nat.exists_eq_succ_of_ne_zero (Nat.ne_of_gt (Nat.add_pos_right _ c.utf8Size_pos))
    have rest : n + 1 - c.utf8Size = utf8Len front := by rw [← total, Nat.add_sub_cancel]
    rw [String.utf8Len_cons, total, List.cons_append, splitAt?, if_pos (by omega), rest, ih]
    rfl

def after? (start : ℕ) (text : List Char) : Option (List Char) := (splitAt? start text).map (·.2)

def before? (stop : ℕ) (text : List Char) : Option (List Char) := (splitAt? stop text).map (·.1)

def between? (start stop : ℕ) (text : List Char) : Option (List Char) :=
  (before? stop text).bind (after? start)

theorem after?_append (front back : List Char) :
    after? (utf8Len front) (front ++ back) = some back := by
  rw [after?, splitAt?_append]
  rfl

theorem before?_append (front back : List Char) :
    before? (utf8Len front) (front ++ back) = some front := by
  rw [before?, splitAt?_append]
  rfl

theorem between?_append (front mid back : List Char) :
    between? (utf8Len front) (utf8Len (front ++ mid)) (front ++ (mid ++ back)) = some mid := by
  rw [between?, ← List.append_assoc, before?_append]
  exact after?_append front mid

def offsetOf? (p : Char → Bool) : List Char → Option ℕ
  | [] => none
  | c :: rest => if p c then some 0 else (offsetOf? p rest).map (c.utf8Size + ·)

theorem offsetOf?_append {p : Char → Bool} {front rest : List Char}
    (none_before : ∀ c ∈ front, p c = false) (first : ∀ c ∈ rest.head?, p c = true) :
    offsetOf? p (front ++ rest) = if rest = [] then none else some (utf8Len front) := by
  induction front with
  | nil =>
    cases rest with
    | nil => rfl
    | cons c rest => simp [offsetOf?, first c rfl]
  | cons c front ih =>
    obtain ⟨other, none_before⟩ := List.forall_mem_cons.mp none_before
    rw [List.cons_append, offsetOf?, other, if_neg Bool.false_ne_true, ih none_before]
    split
    · rfl
    · exact congrArg some (Nat.add_comm _ _)

def skipSpace? (text : List Char) (start : ℕ) : Option ℕ := do
  let rest ← after? start text
  return start + utf8Len rest - utf8Len (trimStart rest)

theorem skipSpace?_append (front : List Char) {gap rest : List Char} (blank : AllBlank gap)
    (stop : ∀ c ∈ rest.head?, isBlank c = false) :
    skipSpace? (front ++ (gap ++ rest)) (utf8Len front) = some (utf8Len (front ++ gap)) := by
  rw [skipSpace?, after?_append]
  change some (utf8Len front + utf8Len (gap ++ rest) - utf8Len (trimStart (gap ++ rest))) = _
  rw [trimStart_append blank stop, String.utf8Len_append, String.utf8Len_append, ← Nat.add_assoc,
    Nat.add_sub_cancel]

/-- What is wrong with a name first, and how many characters stand before that. -/
inductive FirstFault : List Char → ℕ → NameFault → Prop where
  | missing : FirstFault [] 0 .missing
  | badStart {c : Char} {rest : List Char} (bad : isNameStart c = false) :
      FirstFault (c :: rest) 0 (.badStart c)
  | badRest {good : List Char} {c : Char} {rest : List Char} (valid : IsIdentifier good)
      (bad : isNameRest c = false) : FirstFault (good ++ c :: rest) good.length (.badRest c)

theorem exists_of_badRest?_eq_some {k n : ℕ} {text : List Char} {fault : NameFault}
    (found : badRest? k text = some (n, fault)) :
    ∃ good c rest, text = good ++ c :: rest ∧ (∀ d ∈ good, isNameRest d = true) ∧
      isNameRest c = false ∧ n = k + good.length ∧ fault = .badRest c := by
  induction text generalizing k with
  | nil => cases found
  | cons c rest ih =>
    rw [badRest?] at found
    split at found
    · next fine =>
      obtain ⟨good, d, more, rfl, others, bad, rfl, rfl⟩ := ih found
      refine ⟨c :: good, d, more, rfl, List.forall_mem_cons.mpr ⟨fine, others⟩, bad, ?_, rfl⟩
      rw [List.length_cons, Nat.add_right_comm, Nat.add_assoc]
    · next bad =>
      cases found
      exact ⟨[], c, rest, rfl, List.forall_mem_nil _, Bool.eq_false_iff.mpr bad, rfl, rfl⟩

theorem firstFault_of_nameFault? {name : List Char} {n : ℕ} {fault : NameFault}
    (found : nameFault? name = some (n, fault)) : FirstFault name n fault := by
  cases name with
  | nil =>
    cases found
    exact .missing
  | cons c rest =>
    rw [nameFault?] at found
    split at found
    · next fine =>
      obtain ⟨good, d, more, rfl, others, bad, rfl, rfl⟩ := exists_of_badRest?_eq_some found
      rw [← List.cons_append, Nat.add_comm]
      exact .badRest ⟨c, good, rfl, fine, others⟩ bad
    · next bad =>
      cases found
      exact .badStart (Bool.eq_false_iff.mpr bad)

theorem FirstFault.le_length {name : List Char} {n : ℕ} {fault : NameFault}
    (first : FirstFault name n fault) : n ≤ name.length := by
  cases first <;> simp

def restFaultOffset? : ℕ → List Char → Option (ℕ × NameFault)
  | _, [] => none
  | n, c :: rest =>
    if isNameRest c then restFaultOffset? (n + c.utf8Size) rest else some (n, .badRest c)

def nameFaultOffset? : List Char → Option (ℕ × NameFault)
  | [] => some (0, .missing)
  | c :: rest =>
    if isNameStart c then restFaultOffset? c.utf8Size rest else some (0, .badStart c)

theorem restFaultOffset?_eq (front rest : List Char) :
    restFaultOffset? (utf8Len front) rest =
      (badRest? front.length rest).map fun (n, fault) =>
        (utf8Len ((front ++ rest).take n), fault) := by
  induction rest generalizing front with
  | nil => rfl
  | cons c rest ih =>
    rw [restFaultOffset?, badRest?]
    split
    · have next := ih (front ++ [c])
      rw [String.utf8Len_append, List.length_append, List.append_assoc, String.utf8Len_cons,
        String.utf8Len_nil, Nat.zero_add] at next
      exact next
    · exact congrArg some (Prod.ext (congrArg utf8Len List.take_left.symm) rfl)

theorem nameFaultOffset?_eq (name : List Char) :
    nameFaultOffset? name =
      (nameFault? name).map fun (n, fault) => (utf8Len (name.take n), fault) := by
  cases name with
  | nil => rfl
  | cons c rest =>
    rw [nameFaultOffset?, nameFault?]
    split
    · exact (congrArg (restFaultOffset? · rest) (Nat.zero_add _).symm).trans
        (restFaultOffset?_eq [c] rest)
    · rfl

namespace Entries

variable (e : Entries) (text : List Char)

def acceptNameAt? (name : List Char) (start : ℕ) : Option (Except Complaint Entries) :=
  match once .program e.id with
  | .error cause => some (.error (.about cause))
  | .ok _ =>
    match nameFaultOffset? name with
    | none => some (.ok { e with id := some (String.ofList name) })
    | some (offset, fault) => do
      let before ← before? (start + offset) text
      return .error ⟨.invalidName fault, some (before.length + 1)⟩

/-- Takes a line behind whose `#` the content starts at an offset. -/
def acceptContentAt? (start : ℕ) : Option (Except Complaint Entries) := do
  let content ← after? start text
  if content.head? ≠ some '.' then return .ok e
  let stop := (offsetOf? (· == ';') content).elim (utf8Len text) (start + ·)
  let directive := trimEnd (← between? start stop text)
  let nameLen := (offsetOf? isBlank directive).getD (utf8Len directive)
  let name ← before? nameLen directive
  let argumentAt := min (← skipSpace? text (start + nameLen)) (start + utf8Len directive)
  let argument ← between? argumentAt (start + utf8Len directive) text
  match Keyword.ofName? name with
  | none => return .ok e
  | some .program => e.acceptNameAt? text argument argumentAt
  | some keyword => return (e.acceptSetting keyword argument).mapError .about

def acceptLine? : Option (Except Complaint Entries) := do
  let start ← skipSpace? text 0
  let rest ← after? start text
  if rest = [] then return .ok e
  if rest.head? = some '#' then e.acceptContentAt? text (← skipSpace? text (start + 1))
  else return e.accept (.word (trimEnd rest))

theorem acceptNameAt?_eq (lead argument more name : List Char) :
    e.acceptNameAt? (lead ++ (argument ++ more)) argument (utf8Len lead) =
      some (e.acceptName ⟨name, argument, lead.length + 1⟩) := by
  rw [acceptNameAt?, acceptName, nameFaultOffset?_eq]
  cases once .program e.id with
  | error cause => rfl
  | ok _ =>
    cases found : nameFault? argument with
    | none => rfl
    | some fault =>
      obtain ⟨n, fault⟩ := fault
      have inside := (firstFault_of_nameFault? found).le_length
      have cut := before?_append (lead ++ argument.take n) (argument.drop n ++ more)
      rw [List.append_assoc, ← List.append_assoc (argument.take n), List.take_append_drop,
        String.utf8Len_append] at cut
      have column : (lead ++ argument.take n).length + 1 = lead.length + 1 + n := by
        rw [List.length_append, List.length_take, Nat.min_eq_left inside, Nat.add_right_comm]
      simp only [Option.map_some, cut]
      rw [← column]
      rfl

end Entries

namespace DirectiveParts

variable (p : DirectiveParts)

theorem stop_eq :
    (offsetOf? (· == ';') (p.core ++ (p.back ++ p.tail))).elim (utf8Len p.text)
      (utf8Len p.lead + ·) = utf8Len (p.lead ++ (p.core ++ p.back)) := by
  have found : offsetOf? (· == ';') (p.core ++ p.back ++ p.tail) = _ :=
    offsetOf?_append (fun c member => by simpa using p.core_open c member) fun c first => by
      simpa using p.closed c first
  rw [← List.append_assoc, found]
  by_cases empty : p.tail = []
  · rw [if_pos empty, text, empty, List.append_nil]
    rfl
  · rw [if_neg empty, String.utf8Len_append p.lead]
    rfl

theorem nameLen_eq : (offsetOf? isBlank p.core).getD (utf8Len p.core) = utf8Len p.name := by
  rw [core, offsetOf?_append p.solid p.space_head]
  by_cases empty : p.space ++ p.argument = []
  · rw [if_pos empty, empty, List.append_nil]
    rfl
  · rw [if_neg empty]
    rfl

theorem exists_argumentAt :
    ∃ n, skipSpace? p.text (utf8Len p.lead + utf8Len p.name) = some n ∧
      min n (utf8Len p.lead + utf8Len p.core) = utf8Len p.opening := by
  by_cases empty : p.argument = []
  · have space := p.spaced.mpr empty
    have stop : ∀ c ∈ p.tail.head?, isBlank c = false := fun c first => by
      rw [p.closed c first]
      decide
    have skipped := skipSpace?_append (p.lead ++ p.name) p.blank_back stop
    have whole : p.text = p.lead ++ p.name ++ (p.back ++ p.tail) := by
      simp [text, core, space, empty]
    rw [← whole, String.utf8Len_append] at skipped
    refine ⟨_, skipped, ?_⟩
    simp [core, opening, space, empty]
  · have start : ∀ c ∈ (p.argument ++ (p.back ++ p.tail)).head?, isBlank c = false := by
      rw [List.head?_append_of_ne_nil _ empty]
      exact p.trimmed.1
    have skipped := skipSpace?_append (p.lead ++ p.name) p.blank_space start
    have whole : p.text = p.lead ++ p.name ++ (p.space ++ (p.argument ++ (p.back ++ p.tail))) := by
      simp [text, core]
    rw [← whole, String.utf8Len_append] at skipped
    refine ⟨_, skipped, ?_⟩
    simp [core, opening]

end DirectiveParts

namespace Entries

variable (e : Entries) (text : List Char)

theorem acceptContentAt?_text (p : DirectiveParts) :
    e.acceptContentAt? p.text (utf8Len p.lead) = some (e.accept (.directive p.directive)) := by
  have content : after? (utf8Len p.lead) p.text = some (p.core ++ (p.back ++ p.tail)) :=
    after?_append _ _
  have body : between? (utf8Len p.lead) (utf8Len (p.lead ++ (p.core ++ p.back))) p.text =
      some (p.core ++ p.back) := by
    have slice := between?_append p.lead (p.core ++ p.back) p.tail
    rwa [List.append_assoc] at slice
  have name : before? (utf8Len p.name) p.core = some p.name := before?_append _ _
  have length : utf8Len p.lead + utf8Len p.core = utf8Len (p.opening ++ p.argument) := by
    simp [DirectiveParts.core, DirectiveParts.opening]
  have argument : between? (utf8Len p.opening) (utf8Len p.lead + utf8Len p.core) p.text =
      some p.argument := by
    rw [length, p.text_eq]
    exact between?_append _ _ _
  obtain ⟨n, skipped, argumentAt⟩ := p.exists_argumentAt
  have named := e.acceptNameAt?_eq p.opening p.argument (p.back ++ p.tail) p.name
  rw [← p.text_eq] at named
  have dotted : ¬ (p.core ++ (p.back ++ p.tail)).head? ≠ some '.' := fun other =>
    other p.content_head
  simp only [acceptContentAt?, content, Option.bind_eq_bind, Option.bind_some, if_neg dotted,
    p.stop_eq, body, p.trimEnd_body, p.nameLen_eq, name, skipped, argumentAt, argument, named]
  have same : p.directive.name = p.name := rfl
  rw [accept, same]
  cases Keyword.ofName? p.name with
  | none => rfl
  | some keyword => cases keyword <;> rfl

theorem acceptLine?_append {front rest : List Char} (blank : AllBlank front)
    (stop : ∀ c ∈ rest.head?, isBlank c = false) :
    e.acceptLine? (front ++ rest) =
      if rest = [] then some (.ok e)
      else if rest.head? = some '#' then
        (skipSpace? (front ++ rest) (utf8Len front + 1)).bind (e.acceptContentAt? (front ++ rest))
      else some (e.accept (.word (trimEnd rest))) := by
  have start : skipSpace? (front ++ rest) 0 = some (utf8Len front) :=
    skipSpace?_append [] blank stop
  simp only [acceptLine?, start, Option.bind_eq_bind, Option.bind_some, after?_append]
  rfl

theorem acceptLine?_of_hash {front gap rest : List Char} (blank : AllBlank front)
    (blank' : AllBlank gap) (stop : ∀ c ∈ rest.head?, isBlank c = false) :
    e.acceptLine? (front ++ '#' :: (gap ++ rest)) =
      e.acceptContentAt? (front ++ '#' :: (gap ++ rest)) (utf8Len (front ++ '#' :: gap)) := by
  have hash : ∀ c ∈ ('#' :: (gap ++ rest)).head?, isBlank c = false := fun c first => by
    cases first
    exact isBlank_hash
  have skipped := skipSpace?_append (front ++ ['#']) blank' stop
  rw [List.append_assoc, List.append_assoc, String.utf8Len_append] at skipped
  rw [e.acceptLine?_append blank hash, if_neg (List.cons_ne_nil _ _), if_pos List.head?_cons]
  exact congrArg (Option.bind · _) skipped

/-- No slice of a line lies outside of it or ends inside a character. -/
theorem acceptLine?_eq : e.acceptLine? text = some (e.accept (.ofText text)) := by
  have form := form_ofText text
  cases holds : Line.ofText text with
  | directive d =>
    obtain ⟨p, rfl, rfl⟩ := exists_directiveParts holds
    have stop : ∀ c ∈ (p.core ++ (p.back ++ p.tail)).head?, isBlank c = false := fun c first => by
      cases p.content_head.symm.trans first
      exact isBlank_dot
    have whole : p.text = p.front ++ '#' :: (p.gap ++ (p.core ++ (p.back ++ p.tail))) := by
      simp [DirectiveParts.text, DirectiveParts.lead]
    have found := e.acceptLine?_of_hash p.blank_front p.blank_gap stop
    rw [← whole] at found
    exact found.trans (e.acceptContentAt?_text p)
  | nothing =>
    rw [holds] at form
    cases form with
    | blank blank =>
      have all : e.acceptLine? (text ++ []) = _ :=
        e.acceptLine?_append blank fun _ first => absurd first (Option.not_mem_none _)
      rw [List.append_nil] at all
      exact all
    | @comment front gap rest blank blank' plain =>
      rw [e.acceptLine?_of_hash blank blank' fun c first => (plain c first).1, acceptContentAt?]
      have content := after?_append (front ++ '#' :: gap) rest
      rw [List.append_assoc, List.cons_append] at content
      have other : rest.head? ≠ some '.' := fun dot => (plain '.' dot).2 rfl
      simp only [content, Option.bind_eq_bind, Option.bind_some, if_pos other]
      rfl
  | word word =>
    rw [holds] at form
    cases form with
    | @word front _ gap blank blank' ne mark trimmed =>
      have start : ∀ c ∈ (word ++ gap).head?, isBlank c = false := by
        rw [List.head?_append_of_ne_nil _ ne]
        exact trimmed.1
      rw [e.acceptLine?_append blank start, if_neg (List.append_ne_nil_of_left_ne_nil ne _), if_neg,
        trimEnd_append blank' trimmed.2]
      rwa [List.head?_append_of_ne_nil _ ne]

end Entries

end PioBlock.Listing
