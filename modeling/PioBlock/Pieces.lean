/-! Lists are cut into pieces from their end on: what comes in front of the first piece either
extends it or closes it. -/

namespace PioBlock

variable {α : Type}

def extendFirst (a : α) : List (List α) → List (List α)
  | [] => [[a]]
  | piece :: later => (a :: piece) :: later

theorem extendFirst_ne_nil (a : α) (pieces : List (List α)) : extendFirst a pieces ≠ [] := by
  cases pieces <;> simp [extendFirst]

/-- The pieces between the places where `separator` stands, empty ones included. -/
def cutAt [DecidableEq α] (separator : α) : List α → List (List α)
  | [] => [[]]
  | a :: rest =>
    if a = separator then [] :: cutAt separator rest else extendFirst a (cutAt separator rest)

theorem cutAt_ne_nil [DecidableEq α] (separator : α) (list : List α) :
    cutAt separator list ≠ [] := by
  cases list with
  | nil => simp [cutAt]
  | cons a rest =>
    rw [cutAt]
    split
    · simp
    · exact extendFirst_ne_nil a _

theorem cutAt_of_not_mem [DecidableEq α] {separator : α} {list : List α}
    (h : separator ∉ list) : cutAt separator list = [list] := by
  induction list with
  | nil => rfl
  | cons a rest ih =>
    have apart : a ≠ separator := fun e => h (e ▸ List.mem_cons_self ..)
    rw [cutAt, if_neg apart, ih fun m => h (List.mem_cons_of_mem _ m), extendFirst]

end PioBlock
