import PioBlock.Proofs.CommandLine.Paths
import PioBlock.Proofs.Listing.Acceptance

/-! Where paths lead in a tree of files. A file that can be read is found under its name in some
directory, and the path next to its own leads to the same directory. -/

namespace PioBlock.CommandLine.FileTree

open Listing (bind_eq_ok_iff)

variable {t : FileTree} {place directory : Location} {names : List (List Char)} {name : List Char}

/-- Every entry lies in a directory. -/
def IsTree (t : FileTree) : Prop :=
  ∀ e ∈ t.entries, t.lookup? e.1.dropLast = some .directory

instance (t : FileTree) : Decidable t.IsTree := inferInstanceAs (Decidable (∀ e ∈ _, _))

theorem mem_of_find? {entry : Entry} {entries : List (Location × Entry)}
    (found : find? place entries = some entry) : (place, entry) ∈ entries := by
  induction entries with
  | nil => cases found
  | cons e entries ih =>
    rw [find?] at found
    split at found
    · next same =>
      cases found
      exact same ▸ List.mem_cons_self
    · exact List.mem_cons_of_mem _ (ih found)

theorem IsTree.lookup?_dropLast (sound : t.IsTree) {entry : Entry}
    (found : t.lookup? place = some entry) : t.lookup? place.dropLast = some .directory := by
  unfold lookup? at found
  split at found
  · next root =>
    subst root
    rfl
  · exact sound _ (mem_of_find? found)

theorem enter_eq_ok_iff {u : Unit} :
    t.enter place = .ok u ↔ t.lookup? place = some .directory := by
  unfold enter
  split
  · next found => simp [found]
  · next found => simp [found]
  · next found => simp [found]

theorem walk_append (place : Location) (names later : List (List Char)) :
    t.walk place (names ++ later) = t.walk place names >>= fun there => t.walk there later := by
  induction names generalizing place with
  | nil => rfl
  | cons name names ih =>
    simp only [List.cons_append, walk, ih, bind_assoc]
    congr 1
    funext _
    split
    · rfl
    · split
      · rfl
      · rw [bind_assoc]

theorem walk_append_stay (stay : name = [] ∨ name = ['.']) :
    t.walk place (names ++ [name]) = .ok directory ↔
      t.walk place names = .ok directory ∧ t.lookup? directory = some .directory := by
  simp only [walk_append, walk, if_pos stay, bind_eq_ok_iff, enter_eq_ok_iff, Except.ok.injEq]
  constructor
  · rintro ⟨there, walked, _, entered, rfl⟩
    exact ⟨walked, entered⟩
  · exact fun ⟨walked, entered⟩ => ⟨directory, walked, (), entered, rfl⟩

theorem walk_append_name (proper : IsName name) {there : Location} :
    t.walk place (names ++ [name]) = .ok there ↔ ∃ directory, t.walk place names = .ok directory ∧
      t.lookup? directory = some .directory ∧ checkName name = .ok () ∧
      there = directory ++ [name] := by
  have go : ¬ (name = [] ∨ name = ['.']) := not_or.mpr ⟨proper.ne_nil, proper.ne_dot⟩
  simp only [walk_append, walk, if_neg go, if_neg proper.ne_dots, bind_eq_ok_iff, enter_eq_ok_iff,
    Except.ok.injEq]
  constructor
  · rintro ⟨directory, walked, _, entered, _, short, rfl⟩
    exact ⟨directory, walked, entered, short, rfl⟩
  · rintro ⟨directory, walked, entered, short, rfl⟩
    exact ⟨directory, walked, (), entered, (), short, rfl⟩

theorem IsTree.lookup?_of_walk_dots (sound : t.IsTree)
    (walked : t.walk place (names ++ [['.', '.']]) = .ok directory) :
    t.lookup? directory = some .directory := by
  have go : ¬ (['.', '.'] = [] ∨ ['.', '.'] = ['.']) := by decide
  simp only [walk_append, walk, if_neg go, if_true, bind_eq_ok_iff, enter_eq_ok_iff,
    Except.ok.injEq] at walked
  obtain ⟨below, -, -, entered, rfl⟩ := walked
  exact sound.lookup?_dropLast entered

theorem IsTree.isName_of_walk (sound : t.IsTree) (plain : '/' ∉ name) {bytes : List UInt8}
    (walked : t.walk place (names ++ [name]) = .ok directory)
    (found : t.lookup? directory = some (.file bytes)) : IsName name := by
  have no_directory : t.lookup? directory ≠ some .directory := fun same =>
    nomatch found.symm.trans same
  refine ⟨?_, plain, ?_, ?_⟩
  · exact fun stay => no_directory (walk_append_stay (.inl stay) |>.mp walked).2
  · exact fun stay => no_directory (walk_append_stay (.inr stay) |>.mp walked).2
  · rintro rfl
    exact no_directory (sound.lookup?_of_walk_dots walked)

def follow (t : FileTree) (path : Path) : Except FileFault Location :=
  t.walk (t.start path) (cutAt '/' path)

/-- What is dropped from the end of a path asks for the directory once more. -/
theorem walk_dropTail (reversed : List Char)
    (walked : t.walk place (cutAt '/' reversed.reverse) = .ok directory) :
    t.walk place (cutAt '/' (Path.dropTail reversed).reverse) = .ok directory := by
  fun_induction Path.dropTail reversed with
  | case1 => exact walked
  | case2 rest more ih =>
    rw [List.reverse_cons, cutAt_append_cons] at walked
    exact ih ((walk_append_stay (.inl rfl)).mp walked).1
  | case3 rest ih =>
    have cut : ('.' :: '/' :: rest).reverse = rest.reverse ++ '/' :: ['.'] := by simp
    rw [cut, cutAt_append_cons] at walked
    refine ih ?_
    rw [List.reverse_cons, cutAt_append_cons]
    exact (walk_append_stay (.inl rfl)).mpr ((walk_append_stay (.inr rfl)).mp walked)
  | case4 => exact walked

theorem start_congr {p q : Path} (same : p.head? = q.head?) : t.start p = t.start q := by
  rw [start, start, same]

theorem follow_dropTail {p : Path} (followed : t.follow p = .ok directory) :
    t.follow (Path.dropTail p.reverse).reverse = .ok directory := by
  have head : (Path.dropTail p.reverse).reverse.head? = p.head? := by
    rw [List.head?_reverse, Path.getLast?_dropTail, List.getLast?_reverse]
  rw [follow, start_congr head]
  exact walk_dropTail p.reverse (by rwa [List.reverse_reverse])

theorem exists_pieces {front : Path} (behind : Path.IsFront front) :
    ∃ before, cutAt '/' front = before ++ [[]] ∧
      ∀ name, '/' ∉ name → cutAt '/' (front ++ name) = before ++ [name] := by
  obtain rfl | ⟨before, rfl⟩ := behind
  · exact ⟨[], rfl, fun name plain => cutAt_of_not_mem plain⟩
  · refine ⟨cutAt '/' before, cutAt_append_cons '/' before [], fun name plain => ?_⟩
    rw [List.append_assoc, List.singleton_append, cutAt_append_cons, cutAt_of_not_mem plain]

theorem start_append {front : Path} (behind : Path.IsFront front) (plain : '/' ∉ name) :
    t.start (front ++ name) = t.start front := by
  obtain rfl | ⟨before, rfl⟩ := behind
  · cases name with
    | nil => rfl
    | cons c name =>
      have relative : ¬ (c :: name).head? = some '/' := fun slash =>
        plain (Option.some.inj slash ▸ List.mem_cons_self)
      exact if_neg relative
  · exact start_congr (by cases before <;> rfl)

/-- The path ends in this name, and what comes before leads to this directory. -/
structure Names (t : FileTree) (p : Path) (directory : Location) (name : List Char) : Prop where
  proper : IsName name
  front : ∃ front, Path.IsFront front ∧ p = front ++ name ∧ t.follow front = .ok directory

variable {p : Path}

theorem Names.pieces (names : t.Names p directory name) :
    ∃ before, cutAt '/' p = before ++ [name] ∧ t.walk (t.start p) before = .ok directory ∧
      t.lookup? directory = some .directory := by
  obtain ⟨proper, front, behind, rfl, followed⟩ := names
  obtain ⟨before, cut, cut_name⟩ := exists_pieces behind
  rw [follow, cut] at followed
  rw [start_append behind proper.plain]
  exact ⟨before, cut_name name proper.plain, (walk_append_stay (.inl rfl)).mp followed⟩

theorem Names.opened (names : t.Names p directory name) :
    t.lookup? directory = some .directory := by
  obtain ⟨-, -, -, opened⟩ := names.pieces
  exact opened

theorem Names.getLast?_ne (names : t.Names p directory name) : p.getLast? ≠ some '/' := by
  obtain ⟨proper, front, -, rfl, -⟩ := names
  intro slash
  rw [List.getLast?_append_of_ne_nil front proper.ne_nil] at slash
  exact proper.plain (List.mem_of_getLast? slash)

theorem Names.locate_eq_ok_iff (names : t.Names p directory name) {there : Location} :
    t.locate p = .ok there ↔
      checkPath p = .ok () ∧ checkName name = .ok () ∧ there = directory ++ [name] := by
  obtain ⟨before, cut, walked, entered⟩ := names.pieces
  simp only [locate, bind_eq_ok_iff, cut, walk_append_name names.proper, walked]
  constructor
  · rintro ⟨_, short, _, ⟨⟩, -, short_name, rfl⟩
    exact ⟨short, short_name, rfl⟩
  · rintro ⟨short, short_name, rfl⟩
    exact ⟨(), short, directory, rfl, entered, short_name, rfl⟩

theorem Names.target_eq_ok_iff (names : t.Names p directory name) {there : Location} :
    t.target p = .ok there ↔ checkPath p = .ok () ∧ checkName name = .ok () ∧
      t.lookup? (directory ++ [name]) ≠ some .directory ∧ there = directory ++ [name] := by
  obtain ⟨before, cut, walked, entered⟩ := names.pieces
  have backwards : (cutAt '/' p).reverse.dropWhile (· == []) = name :: before.reverse := by
    rw [cut, List.reverse_concat', List.dropWhile_cons_of_neg]
    exact fun none => names.proper.ne_nil (eq_of_beq none)
  have file_name : ¬ (p.getLast? = some '/' ∨ Path.isDots name = true) := by
    rw [names.proper.isDots_eq]
    exact fun bad => bad.elim names.getLast?_ne Bool.false_ne_true
  simp only [target, backwards, List.reverse_reverse, walked, if_neg file_name, bind_eq_ok_iff,
    enter_eq_ok_iff]
  constructor
  · rintro ⟨_, short, _, ⟨⟩, _, -, _, short_name, ended⟩
    split at ended
    · cases ended
    · next vacant =>
      cases ended
      exact ⟨short, short_name, vacant, rfl⟩
  · rintro ⟨short, short_name, vacant, rfl⟩
    exact ⟨(), short, directory, rfl, (), entered, (), short_name, if_neg vacant⟩

theorem Names.image (names : t.Names p directory name) :
    t.Names (Path.image p) directory (Path.imageName name) := by
  have opened := names.opened
  obtain ⟨proper, front, behind, rfl, followed⟩ := names
  refine ⟨proper.imageName, ?_⟩
  rw [Path.image_append behind proper]
  have kept := follow_dropTail followed
  generalize (Path.dropTail front.reverse).reverse = parent at kept
  unfold Path.join
  split
  · next whole =>
    refine ⟨parent, ?_, rfl, kept⟩
    refine whole.imp_right fun slash => ?_
    obtain ⟨before, rfl⟩ := List.getLast?_eq_some_iff.mp slash
    exact ⟨before, rfl⟩
  · next part =>
    obtain ⟨some_parent, -⟩ := not_or.mp part
    refine ⟨parent ++ ['/'], .inr ⟨parent, rfl⟩, List.append_cons .., ?_⟩
    have head : (parent ++ ['/']).head? = parent.head? := List.head?_append_of_ne_nil _ some_parent
    rw [follow, start_congr head, cutAt_append_cons]
    exact (walk_append_stay (.inl rfl)).mpr ⟨kept, opened⟩

theorem IsTree.names_of_read (sound : t.IsTree) {bytes : List UInt8}
    (read : t.read p = .ok bytes) :
    ∃ directory name, t.Names p directory name ∧ t.locate p = .ok (directory ++ [name]) ∧
      t.lookup? (directory ++ [name]) = some (.file bytes) := by
  unfold FileTree.read at read
  split at read
  · cases read
  next there located =>
  split at read
  · cases read
  · cases read
  next found =>
  cases read
  obtain ⟨front, name, rfl, behind, plain⟩ := Path.exists_front p
  obtain ⟨before, cut, cut_name⟩ := exists_pieces behind
  have walked := (bind_eq_ok_iff.mp located).choose_spec.2
  rw [cut_name name plain, start_append behind plain] at walked
  have proper := sound.isName_of_walk plain walked found
  obtain ⟨directory, followed, opened, -, rfl⟩ := (walk_append_name proper).mp walked
  refine ⟨directory, name, ⟨proper, front, behind, rfl, ?_⟩, located, found⟩
  rw [follow, cut]
  exact (walk_append_stay (.inl rfl)).mpr ⟨followed, opened⟩

variable {other : Location} {entry : Entry}

theorem lookup?_put_of_directory (vacant : t.lookup? other ≠ some .directory)
    (found : t.lookup? place = some .directory) :
    (t.put other entry).lookup? place = some .directory := by
  have apart : other ≠ place := fun same => vacant (same ▸ found)
  rw [lookup?_put_of_ne apart, found]

/-- No path leads elsewhere than before. -/
theorem walk_put (vacant : t.lookup? other ≠ some .directory)
    (walked : t.walk place names = .ok directory) :
    (t.put other entry).walk place names = .ok directory := by
  induction names generalizing place with
  | nil => exact walked
  | cons name names ih =>
    rw [walk, bind_eq_ok_iff] at walked ⊢
    obtain ⟨_, entered, walked⟩ := walked
    refine ⟨(), ?_, ?_⟩
    · exact enter_eq_ok_iff.mpr (lookup?_put_of_directory vacant (enter_eq_ok_iff.mp entered))
    · split at walked
      · next stay => rw [if_pos stay, ih walked]
      · next go =>
        rw [if_neg go]
        split at walked
        · next up => rw [if_pos up, ih walked]
        · next down =>
          obtain ⟨_, short, walked⟩ := bind_eq_ok_iff.mp walked
          rw [if_neg down, short]
          exact ih walked

theorem locate_put (vacant : t.lookup? other ≠ some .directory) {there : Location}
    (located : t.locate p = .ok there) : (t.put other entry).locate p = .ok there := by
  obtain ⟨_, short, walked⟩ := bind_eq_ok_iff.mp located
  exact bind_eq_ok_iff.mpr ⟨(), short, walk_put vacant walked⟩

theorem read_of_lookup? {bytes : List UInt8} (located : t.locate p = .ok place)
    (found : t.lookup? place = some (.file bytes)) : t.read p = .ok bytes := by
  simp only [FileTree.read, located, found]

theorem IsTree.put (sound : t.IsTree) (opened : t.lookup? directory = some .directory)
    (vacant : t.lookup? (directory ++ [name]) ≠ some .directory) :
    (t.put (directory ++ [name]) entry).IsTree := by
  intro e member
  refine lookup?_put_of_directory vacant ?_
  obtain rfl | before := List.mem_cons.mp member
  · rwa [List.dropLast_concat]
  · exact sound e before

theorem Names.write_eq_ok_iff (names : t.Names p directory name) {bytes : List UInt8}
    {u : FileTree} :
    t.write p bytes = .ok u ↔ checkPath p = .ok () ∧ checkName name = .ok () ∧
      t.lookup? (directory ++ [name]) ≠ some .directory ∧
      u = t.put (directory ++ [name]) (.file bytes) := by
  rw [write, bind_eq_ok_iff]
  simp only [names.target_eq_ok_iff]
  constructor
  · rintro ⟨_, ⟨short, short_name, vacant, rfl⟩, ⟨⟩⟩
    exact ⟨short, short_name, vacant, rfl⟩
  · rintro ⟨short, short_name, vacant, rfl⟩
    exact ⟨_, ⟨short, short_name, vacant, rfl⟩, rfl⟩

end PioBlock.CommandLine.FileTree
