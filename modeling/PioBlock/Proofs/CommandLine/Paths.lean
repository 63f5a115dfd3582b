import PioBlock.CommandLine.FileTree

/-! A path that ends in a name, and the path next to it where the image of a listing goes. The
image has the name without its ending, and the ending `.bin`. So the one name that is its own image
is that of a file which already ends in `.bin`. -/

namespace PioBlock

variable {α : Type}

theorem extendFirst_append (a : α) {pieces : List (List α)} (some_piece : pieces ≠ [])
    (later : List (List α)) : extendFirst a (pieces ++ later) = extendFirst a pieces ++ later := by
  cases pieces with
  | nil => exact absurd rfl some_piece
  | cons piece rest => rfl

theorem cutAt_append_cons [DecidableEq α] (separator : α) (front back : List α) :
    cutAt separator (front ++ separator :: back) =
      cutAt separator front ++ cutAt separator back := by
  induction front with
  | nil => exact if_pos rfl
  | cons a front ih =>
    simp only [List.cons_append, cutAt, ih]
    split
    · rfl
    · exact extendFirst_append a (cutAt_ne_nil separator front) _

namespace CommandLine

/-- A name of a file or a directory: it has no slash in it, and it is not one of the two that stand
for a directory which has another name. -/
structure IsName (name : List Char) : Prop where
  ne_nil : name ≠ []
  plain : '/' ∉ name
  ne_dot : name ≠ ['.']
  ne_dots : name ≠ ['.', '.']

theorem IsName.isDots_eq {name : List Char} (proper : IsName name) : Path.isDots name = false := by
  simp only [Path.isDots, beq_eq_false_iff_ne.mpr proper.ne_dot,
    beq_eq_false_iff_ne.mpr proper.ne_dots, Bool.or_self]

namespace Path

/-- What stands before the last name of a path: nothing, or what ends in a slash. -/
def IsFront (front : Path) : Prop := front = [] ∨ ∃ before, front = before ++ ['/']

theorem exists_front (p : Path) : ∃ front name, p = front ++ name ∧ IsFront front ∧ '/' ∉ name := by
  induction p with
  | nil => exact ⟨[], [], rfl, .inl rfl, List.not_mem_nil⟩
  | cons c p ih =>
    obtain ⟨_, name, rfl, rfl | ⟨before, rfl⟩, plain⟩ := ih
    · by_cases slash : c = '/'
      · subst slash
        exact ⟨['/'], name, rfl, .inr ⟨[], rfl⟩, plain⟩
      · refine ⟨[], c :: name, rfl, .inl rfl, fun member => ?_⟩
        obtain same | later := List.mem_cons.mp member
        · exact slash same.symm
        · exact plain later
    · exact ⟨c :: before ++ ['/'], name, rfl, .inr ⟨c :: before, rfl⟩, plain⟩

theorem dropTail_eq_self {reversed : List Char} (no_slash : ∀ rest, reversed ≠ '/' :: rest)
    (no_dot : ∀ rest, reversed ≠ '.' :: '/' :: rest) : dropTail reversed = reversed := by
  fun_cases dropTail reversed with
  | case1 => rfl
  | case2 rest => exact absurd rfl (no_slash rest)
  | case3 rest => exact absurd rfl (no_dot rest)
  | case4 => rfl

theorem dropTail_name {name : List Char} (proper : IsName name) (front : Path) :
    dropTail (front ++ name).reverse = name.reverse ++ front.reverse := by
  have ne_nil : name.reverse ≠ [] := fun e => proper.ne_nil (List.reverse_eq_nil_iff.mp e)
  have plain : '/' ∉ name.reverse := fun member => proper.plain (List.mem_reverse.mp member)
  have ne_dot : name.reverse ≠ ['.'] := fun e => proper.ne_dot (List.reverse_eq_iff.mp e)
  rw [List.reverse_append]
  generalize name.reverse = reversed at ne_nil plain ne_dot
  match reversed with
  | [] => exact absurd rfl ne_nil
  | [last] =>
    refine dropTail_eq_self (fun rest e => ?_) (fun rest e => ?_)
    · exact plain (List.head_eq_of_cons_eq e ▸ List.mem_cons_self)
    · exact ne_dot (congrArg (fun c => [c]) (List.head_eq_of_cons_eq e))
  | last :: other :: before =>
    refine dropTail_eq_self (fun rest e => ?_) (fun rest e => ?_)
    · exact plain (List.head_eq_of_cons_eq e ▸ List.mem_cons_self)
    · injection e with _ e
      exact plain (List.head_eq_of_cons_eq e ▸ List.mem_cons_of_mem _ List.mem_cons_self)

theorem getLast?_dropTail (reversed : List Char) :
    (dropTail reversed).getLast? = reversed.getLast? := by
  fun_induction dropTail reversed with
  | case1 => rfl
  | case2 rest more ih =>
    rw [ih]
    cases rest with
    | nil => exact absurd rfl more
    | cons c rest => rw [List.getLast?_cons_cons]
  | case3 rest ih => rw [ih, List.getLast?_cons_cons]
  | case4 => rfl

theorem passes_of_not_mem {separator : Char} {piece : List Char} (plain : separator ∉ piece) :
    ∀ c ∈ piece.reverse, (c != separator) = true := fun _ member =>
  bne_iff_ne.mpr fun same => plain (same ▸ List.mem_reverse.mp member)

theorem IsFront.cut {front : Path} (behind : IsFront front) {name : List Char}
    (plain : '/' ∉ name) :
    (name.reverse ++ front.reverse).takeWhile (· != '/') = name.reverse ∧
      (name.reverse ++ front.reverse).dropWhile (· != '/') = front.reverse := by
  have passed := passes_of_not_mem plain
  rw [List.takeWhile_append_of_pos passed, List.dropWhile_append_of_pos passed]
  obtain rfl | ⟨before, rfl⟩ := behind
  · exact ⟨List.append_nil _, rfl⟩
  · rw [List.reverse_append]
    exact ⟨List.append_nil _, rfl⟩

theorem name_append {front : Path} (behind : IsFront front) {name : List Char}
    (proper : IsName name) : Path.name (front ++ name) = name := by
  rw [Path.name, dropTail_name proper, (behind.cut proper.plain).1, List.reverse_reverse]

theorem parent_append {front : Path} (behind : IsFront front) {name : List Char}
    (proper : IsName name) : parent (front ++ name) = (dropTail front.reverse).reverse := by
  rw [parent, dropTail_name proper, (behind.cut proper.plain).2]

def binEnding : List Char := ".bin".toList

def imageName (name : List Char) : List Char := stem name ++ binEnding

theorem image_append {front : Path} (behind : IsFront front) {name : List Char}
    (proper : IsName name) :
    image (front ++ name) = join (dropTail front.reverse).reverse (imageName name) := by
  have own : ¬ (name = [] ∨ isDots name = true) := by
    rintro (none | dots)
    · exact proper.ne_nil none
    · exact absurd (proper.isDots_eq.symm.trans dots) Bool.false_ne_true
  simp only [image, name_append behind proper, parent_append behind proper, if_neg own]
  rfl

theorem stem_prefix (name : List Char) : stem name <+: name := by
  have suffix := List.dropWhile_suffix (fun c => c != '.') (l := name.reverse)
  unfold stem
  split
  · next dot c rest cut =>
    rw [cut] at suffix
    have later := (List.suffix_cons dot (c :: rest)).trans suffix
    exact List.reverse_suffix.mp (by rwa [List.reverse_reverse])
  · exact List.prefix_refl name

theorem stem_ne_nil {name : List Char} (some_name : name ≠ []) : stem name ≠ [] := by
  unfold stem
  split
  · exact fun none => List.cons_ne_nil _ _ (List.reverse_eq_nil_iff.mp none)
  · exact some_name

theorem stem_append_dot {front : List Char} (some_front : front ≠ []) {ending : List Char}
    (plain : '.' ∉ ending) : stem (front ++ '.' :: ending) = front := by
  have cut : (front ++ '.' :: ending).reverse.dropWhile (· != '.') = '.' :: front.reverse := by
    rw [List.reverse_append, List.reverse_cons, List.append_assoc,
      List.dropWhile_append_of_pos (passes_of_not_mem plain)]
    rfl
  unfold stem
  rw [cut]
  cases backwards : front.reverse with
  | nil => exact absurd (List.reverse_eq_nil_iff.mp backwards) some_front
  | cons c rest => exact List.reverse_eq_iff.mp backwards |>.symm

/-- The name ends in `.bin`, and there is more to it. -/
def IsBin (name : List Char) : Prop := ∃ front, front ≠ [] ∧ name = front ++ binEnding

theorem imageName_eq_iff {name : List Char} (some_name : name ≠ []) :
    imageName name = name ↔ IsBin name := by
  constructor
  · exact fun same => ⟨stem name, stem_ne_nil some_name, same.symm⟩
  · rintro ⟨front, some_front, rfl⟩
    rw [imageName, binEnding]
    exact congrArg (· ++ _) (stem_append_dot some_front (by decide))

theorem getLast?_imageName (name : List Char) : (imageName name).getLast? = some 'n' :=
  List.getLast?_append

end Path

theorem IsName.imageName {name : List Char} (proper : IsName name) :
    IsName (Path.imageName name) where
  ne_nil none := absurd (List.append_eq_nil_iff.mp none).2 (by decide)
  plain member := by
    rcases List.mem_append.mp member with early | late
    · exact proper.plain ((Path.stem_prefix name).subset early)
    · exact absurd late (by decide)
  ne_dot same :=
    absurd ((Path.getLast?_imageName name).symm.trans (congrArg List.getLast? same)) (by decide)
  ne_dots same :=
    absurd ((Path.getLast?_imageName name).symm.trans (congrArg List.getLast? same)) (by decide)

end CommandLine

end PioBlock
