import PioBlock.Listing.Lines
import Mathlib.Data.List.Basic

/-! The laws of cutting a list into lines, whatever it is made of. A list either has no line feed, or
it is what stands before the first one, that line feed, and a rest; the lines of it follow this
division, and so do the proofs by induction. -/

namespace PioBlock.Listing

variable {α : Type} {feed ret : α}

/-- Nothing follows the last line feed. -/
def Terminated (feed : α) (list : List α) : Prop := ∀ c, list.getLast? = some c → c = feed

theorem terminated_nil : Terminated feed ([] : List α) := fun _ h => nomatch h

theorem terminated_append_feed_cons {line rest : List α} :
    Terminated feed (line ++ feed :: rest) ↔ Terminated feed rest := by
  cases rest with
  | nil => simp [Terminated]
  | cons c rest => simp [Terminated, List.getLast?_append, List.getLast?_cons_cons]

theorem Terminated.eq_nil {line : List α} (ended : Terminated feed line) (apart : feed ∉ line) :
    line = [] := by
  cases last : line.getLast? with
  | none => exact List.getLast?_eq_none_iff.mp last
  | some c =>
    have same := ended c last
    exact absurd (same ▸ List.mem_of_getLast? last) apart

variable [DecidableEq α]

theorem lines_induction {P : List α → Prop} (feed : α) (last : ∀ line, feed ∉ line → P line)
    (more : ∀ line rest, feed ∉ line → P rest → P (line ++ feed :: rest)) (list : List α) :
    P list := by
  induction length : list.length using Nat.strongRecOn generalizing list with
  | ind n ih =>
    by_cases member : feed ∈ list
    · obtain ⟨line, rest, rfl, apart⟩ := List.eq_append_cons_of_mem member
      refine more line rest apart (ih rest.length ?_ rest rfl)
      rw [List.length_append, List.length_cons] at length
      omega
    · exact last list member

/-- A line without the carriage return that belongs to its ending. -/
def chop (ret : α) : List α → List α
  | [] => []
  | c :: rest => if c = ret ∧ rest = [] then [] else c :: chop ret rest

theorem chop_append_ret (ret : α) (line : List α) : chop ret (line ++ [ret]) = line := by
  induction line with
  | nil => exact if_pos ⟨rfl, rfl⟩
  | cons c rest ih =>
    have more : ¬ (c = ret ∧ rest ++ [ret] = []) := fun h => by simp at h
    rw [List.cons_append, chop, if_neg more, ih]

theorem chop_of_getLast?_ne {line : List α} (h : line.getLast? ≠ some ret) :
    chop ret line = line := by
  induction line with
  | nil => rfl
  | cons c rest ih =>
    cases rest with
    | nil =>
      have other : ¬ (c = ret ∧ ([] : List α) = []) := fun same => h (by rw [same.1]; rfl)
      rw [chop, if_neg other]
      rfl
    | cons d rest =>
      have more : ¬ (c = ret ∧ d :: rest = []) := fun same => nomatch same.2
      rw [List.getLast?_cons_cons] at h
      rw [chop, if_neg more, ih h]

theorem eq_chop_or (ret : α) (line : List α) : line = chop ret line ∨ line = chop ret line ++ [ret] := by
  by_cases h : line.getLast? = some ret
  · obtain ⟨front, rfl⟩ := List.getLast?_eq_some_iff.mp h
    rw [chop_append_ret]
    exact Or.inr rfl
  · rw [chop_of_getLast?_ne h]
    exact Or.inl rfl

theorem cutLines_append {line : List α} (apart : feed ∉ line) (rest : List α) :
    cutLines feed ret (line ++ feed :: rest) = chop ret line :: cutLines feed ret rest := by
  induction line with
  | nil => exact cutLines_feed feed ret rest
  | cons c line ih =>
    obtain ⟨ne, apart⟩ := List.ne_and_not_mem_of_not_mem_cons apart
    rw [List.cons_append, cutLines, if_neg (Ne.symm ne), ih apart, chop]
    cases line with
    | nil => by_cases same : c = ret <;> simp [same, chop, extendFirst]
    | cons d line =>
      have other : d ≠ feed := fun e => apart (e ▸ List.mem_cons_self ..)
      simp [other, extendFirst]

theorem cutLines_of_not_mem {line : List α} (apart : feed ∉ line) (some_line : line ≠ []) :
    cutLines feed ret line = [line] := by
  induction line with
  | nil => exact absurd rfl some_line
  | cons c line ih =>
    obtain ⟨ne, apart⟩ := List.ne_and_not_mem_of_not_mem_cons apart
    rw [cutLines, if_neg (Ne.symm ne)]
    cases line with
    | nil => simp [cutLines, extendFirst]
    | cons d line =>
      have other : d ≠ feed := fun e => apart (e ▸ List.mem_cons_self ..)
      rw [ih apart (List.cons_ne_nil d line)]
      simp [other, extendFirst]

theorem cutLines_append_of_terminated {front : List α} (ended : Terminated feed front)
    (rest : List α) :
    cutLines feed ret (front ++ rest) = cutLines feed ret front ++ cutLines feed ret rest := by
  induction front using lines_induction feed with
  | last line apart =>
    rw [ended.eq_nil apart]
    rfl
  | more line later apart ih =>
    rw [List.append_assoc, List.cons_append, cutLines_append apart, cutLines_append apart,
      ih (terminated_append_feed_cons.mp ended), List.cons_append]

theorem length_cutLines_of_terminated {list : List α} (ended : Terminated feed list) :
    (cutLines feed ret list).length = list.count feed := by
  induction list using lines_induction feed with
  | last line apart =>
    rw [ended.eq_nil apart]
    rfl
  | more line rest apart ih =>
    rw [cutLines_append apart, List.length_cons, ih (terminated_append_feed_cons.mp ended),
      List.count_append, List.count_eq_zero_of_not_mem apart, List.count_cons_self, Nat.zero_add]

theorem cutLines_flatMap_eq_map_chop {lines : List (List α)}
    (apart : ∀ line ∈ lines, feed ∉ line) :
    cutLines feed ret (lines.flatMap (· ++ [feed])) = lines.map (chop ret) := by
  induction lines with
  | nil => rfl
  | cons line rest ih =>
    obtain ⟨first, apart⟩ := List.forall_mem_cons.mp apart
    rw [List.flatMap_cons, List.append_assoc, List.singleton_append, cutLines_append first,
      ih apart, List.map_cons]

theorem cutLines_flatMap {lines : List (List α)}
    (plain : ∀ line ∈ lines, feed ∉ line ∧ line.getLast? ≠ some ret) :
    cutLines feed ret (lines.flatMap (· ++ [feed])) = lines := by
  rw [cutLines_flatMap_eq_map_chop fun line member => (plain line member).1]
  exact (List.map_congr_left fun line member => chop_of_getLast?_ne (plain line member).2).trans
    (List.map_id lines)

end PioBlock.Listing
