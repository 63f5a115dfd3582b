import PioBlock.Listing.Blank
import Mathlib.Data.List.TakeWhile

/-! Tokens and blanks. A text is read as tokens with blanks around and between them, and cutting it
into words finds just these tokens. Trimming takes the blanks off the ends of a text and leaves its
tokens alone. -/

namespace PioBlock.Listing

def AllBlank (text : List Char) : Prop := ∀ c ∈ text, isBlank c = true

def NoBlank (text : List Char) : Prop := ∀ c ∈ text, isBlank c = false

theorem noBlank_iff {text : List Char} : NoBlank text ↔ text.all (!isBlank ·) = true := by
  simp [NoBlank]

def StartsBlank (text : List Char) : Prop := ∀ c ∈ text.head?, isBlank c = true

structure Trimmed (text : List Char) : Prop where
  front : ∀ c ∈ text.head?, isBlank c = false
  back : ∀ c ∈ text.getLast?, isBlank c = false

/-- The text consists of these tokens, with blanks between any two of them. -/
inductive Tokens : List Char → List (List Char) → Prop where
  | none {gap : List Char} (blank : AllBlank gap) : Tokens gap []
  | cons {gap token rest : List Char} {tokens : List (List Char)} (blank : AllBlank gap)
      (ne : token ≠ []) (solid : NoBlank token) (cut : StartsBlank rest)
      (later : Tokens rest tokens) : Tokens (gap ++ (token ++ rest)) (token :: tokens)

theorem isBlank_eq_false_of_visible {c : Char} (visible : 0x20 < c.toNat ∧ c.toNat < 0x7f) :
    isBlank c = false := by
  rw [isBlank, List.any_eq_false]
  simp only [blankRanges, List.mem_cons, List.not_mem_nil, or_false, decide_eq_true_eq,
    forall_eq_or_imp, forall_eq]
  omega

theorem words_append_of_allBlank {gap : List Char} (blank : AllBlank gap) (text : List Char) :
    words (gap ++ text) = words text := by
  induction gap with
  | nil => rfl
  | cons c gap ih =>
    rw [List.cons_append, words_cons_blank (blank c (List.mem_cons_self ..))]
    exact ih fun d hd => blank d (List.mem_cons_of_mem _ hd)

theorem words_of_allBlank {gap : List Char} (blank : AllBlank gap) : words gap = [] := by
  have all := words_append_of_allBlank blank []
  rwa [List.append_nil] at all

theorem words_token_append {token rest : List Char} (ne : token ≠ []) (solid : NoBlank token)
    (cut : StartsBlank rest) : words (token ++ rest) = token :: words rest := by
  induction token with
  | nil => exact absurd rfl ne
  | cons c token ih =>
    have hc : isBlank c = false := solid c (List.mem_cons_self ..)
    cases token with
    | nil =>
      have alone : rest.head?.all isBlank = true := by
        rw [Option.all_eq_true]
        exact fun d hd => cut d hd
      rw [List.cons_append, List.nil_append, words, hc, alone]
      rfl
    | cons d token =>
      have hd : isBlank d = false := solid d (by simp)
      have first := ih (by simp) fun e he => solid e (List.mem_cons_of_mem _ he)
      rw [List.cons_append, words, first, hc]
      simp [hd, extendFirst]

theorem Tokens.words_eq {text : List Char} {tokens : List (List Char)} (h : Tokens text tokens) :
    words text = tokens := by
  induction h with
  | none blank => exact words_of_allBlank blank
  | cons blank ne solid cut later ih =>
    rw [words_append_of_allBlank blank, words_token_append ne solid cut, ih]

theorem Tokens.blank_append {gap text : List Char} {tokens : List (List Char)}
    (blank : AllBlank gap) (h : Tokens text tokens) : Tokens (gap ++ text) tokens := by
  have join : ∀ {inner : List Char}, AllBlank inner → AllBlank (gap ++ inner) := by
    intro inner blank' c hc
    rcases List.mem_append.mp hc with hc | hc
    · exact blank c hc
    · exact blank' c hc
  cases h with
  | none blank' => exact .none (join blank')
  | cons blank' ne solid cut later =>
    rw [← List.append_assoc]
    exact .cons (join blank') ne solid cut later

theorem tokens_words (text : List Char) : Tokens text (words text) := by
  induction text with
  | nil => exact .none fun c hc => nomatch hc
  | cons c rest ih =>
    rw [words]
    cases hc : isBlank c with
    | true =>
      have gap : AllBlank [c] := by simp [AllBlank, hc]
      exact ih.blank_append gap
    | false =>
      have solid : NoBlank [c] := by simp [NoBlank, hc]
      have empty : AllBlank [] := fun d hd => nomatch hd
      rw [if_neg (by decide)]
      split
      · next alone =>
        refine .cons empty (by simp) solid (fun d hd => ?_) ih
        exact Option.all_eq_true .. |>.mp alone d hd
      · next joined =>
        generalize words rest = tokens at ih
        cases ih with
        | none blank =>
          refine absurd (Option.all_eq_true .. |>.mpr fun d hd => ?_) joined
          exact blank d (List.mem_of_mem_head? hd)
        | @cons gap token rest tokens blank ne solid' cut later =>
          cases gap with
          | nil =>
            refine @Tokens.cons [] (c :: token) rest tokens empty (by simp) (fun d hd => ?_) cut later
            rcases List.mem_cons.mp hd with rfl | hd
            · exact hc
            · exact solid' d hd
          | cons d gap =>
            have hd := blank d (List.mem_cons_self ..)
            simp [hd] at joined

theorem words_eq_iff {text : List Char} {tokens : List (List Char)} :
    words text = tokens ↔ Tokens text tokens :=
  ⟨fun h => h ▸ tokens_words text, Tokens.words_eq⟩

theorem Tokens.append_blank {text gap : List Char} {tokens : List (List Char)}
    (h : Tokens text tokens) (blank : AllBlank gap) : Tokens (text ++ gap) tokens := by
  induction h with
  | none blank' =>
    refine .none fun c hc => ?_
    rcases List.mem_append.mp hc with hc | hc
    · exact blank' c hc
    · exact blank c hc
  | @cons front token rest tokens blank' ne solid cut later ih =>
    rw [List.append_assoc, List.append_assoc]
    refine .cons blank' ne solid (fun c hc => ?_) ih
    cases rest with
    | nil => exact blank c (List.mem_of_mem_head? hc)
    | cons d rest => exact cut c hc

theorem words_append_blank (text : List Char) {gap : List Char} (blank : AllBlank gap) :
    words (text ++ gap) = words text :=
  ((tokens_words text).append_blank blank).words_eq

theorem Trimmed.eq_of_tokens {text token : List Char} (trimmed : Trimmed text)
    (h : Tokens text [token]) : text = token := by
  obtain ⟨front, back⟩ := trimmed
  cases h with
  | @cons gap token rest tokens blank ne solid cut later =>
    have gap_nil : gap = [] := by
      cases gap with
      | nil => rfl
      | cons c gap =>
        have blank_c := blank c (List.mem_cons_self ..)
        rw [front c rfl] at blank_c
        cases blank_c
    subst gap_nil
    cases later with
    | none blank' =>
      cases end_eq : rest.getLast? with
      | none => rw [List.getLast?_eq_none_iff.mp end_eq, List.nil_append, List.append_nil]
      | some c =>
        have blank_c := blank' c (List.mem_of_getLast? end_eq)
        rw [back c (by simp [end_eq])] at blank_c
        cases blank_c

theorem exists_split (p : Char → Bool) (text : List Char) :
    ∃ front rest, text = front ++ rest ∧ (∀ c ∈ front, p c = true) ∧
      ∀ c ∈ rest.head?, p c = false := by
  refine ⟨text.takeWhile p, text.dropWhile p, List.takeWhile_append_dropWhile.symm,
    fun c hc => List.mem_takeWhile_imp hc, fun c hc => ?_⟩
  have first := List.head?_dropWhile_not p text
  rw [Option.mem_def.mp hc] at first
  simpa using first

theorem takeWhile_append {p : Char → Bool} {front rest : List Char}
    (all : ∀ c ∈ front, p c = true) (stop : ∀ c ∈ rest.head?, p c = false) :
    (front ++ rest).takeWhile p = front := by
  rw [List.takeWhile_append_of_pos all]
  cases rest with
  | nil => simp
  | cons c rest => simp [stop c rfl]

theorem dropWhile_append {p : Char → Bool} {front rest : List Char}
    (all : ∀ c ∈ front, p c = true) (stop : ∀ c ∈ rest.head?, p c = false) :
    (front ++ rest).dropWhile p = rest := by
  rw [List.dropWhile_append_of_pos all]
  cases rest with
  | nil => rfl
  | cons c rest => simp [stop c rfl]

theorem trimEnd_append {text gap : List Char} (blank : AllBlank gap)
    (stop : ∀ c ∈ text.getLast?, isBlank c = false) : trimEnd (text ++ gap) = text := by
  rw [trimEnd, List.reverse_append, dropWhile_append, List.reverse_reverse]
  · exact fun c hc => blank c (List.mem_reverse.mp hc)
  · rwa [List.head?_reverse]

theorem exists_trimEnd (text : List Char) :
    ∃ front gap, text = front ++ gap ∧ AllBlank gap ∧ ∀ c ∈ front.getLast?, isBlank c = false := by
  obtain ⟨gap, front, split, blank, stop⟩ := exists_split isBlank text.reverse
  refine ⟨front.reverse, gap.reverse, ?_, fun c hc => blank c (List.mem_reverse.mp hc), ?_⟩
  · rw [← List.reverse_append, ← split, List.reverse_reverse]
  · rwa [List.getLast?_reverse]

end PioBlock.Listing
