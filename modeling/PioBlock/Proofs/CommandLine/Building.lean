import PioBlock.CommandLine.Commands
import PioBlock.Proofs.CommandLine.Walking
import PioBlock.Proofs.Listing.Bytes

/-! What `build` leaves of a tree of files when no output is named. Where the arguments are refused,
the input is no program or the image cannot be written, the tree stays as it was. Otherwise one file
is written, the image, next to the input. It has another name than the input unless the input ends
in `.bin`; such an input is replaced by its own image. -/

namespace PioBlock.CommandLine

/-- What a command line reports, and what it makes of a tree of files. -/
def runOn (arguments : List String) (t : FileTree) : Report × FileTree :=
  (run arguments : StateM FileTree Report).run t

structure NoOutput (arguments : List String) : Prop where
  no_short : "-o" ∉ arguments
  no_long : "--output" ∉ arguments

instance (arguments : List String) : Decidable (NoOutput arguments) :=
  decidable_of_iff ("-o" ∉ arguments ∧ "--output" ∉ arguments)
    ⟨fun silent => ⟨silent.1, silent.2⟩, fun silent => ⟨silent.no_short, silent.no_long⟩⟩

namespace NoOutput

variable {arguments rest : List String} {text : String}

theorem tail (silent : NoOutput (text :: rest)) : NoOutput rest :=
  ⟨fun member => silent.no_short (List.mem_cons_of_mem _ member),
    fun member => silent.no_long (List.mem_cons_of_mem _ member)⟩

theorem ofText_ne (silent : NoOutput (text :: rest)) : Argument.ofText text ≠ .output := by
  have not_short : text ≠ "-o" := fun same => silent.no_short (same ▸ List.mem_cons_self)
  have not_long : text ≠ "--output" := fun same => silent.no_long (same ▸ List.mem_cons_self)
  unfold Argument.ofText
  grind

theorem output_of_read (silent : NoOutput arguments) {b c : BuildArguments}
    (read : b.read arguments = .ok c) : c.output = b.output := by
  fun_induction BuildArguments.read b arguments with
  | case1 b =>
    cases read
    rfl
  | case3 b text rest means ih => exact ih silent.tail read
  | case4 b text means => exact absurd means silent.ofText_ne
  | case5 b text means => exact absurd means silent.ofText_ne
  | case8 b text rest plain means given ih => exact ih silent.tail read
  | _ => cases read

theorem ofArguments (silent : NoOutput arguments) :
    (∃ fault, Request.ofArguments ("build" :: arguments) = .error fault) ∨
      ∃ input verbose, Request.ofArguments ("build" :: arguments) =
        .ok (.build input none verbose) := by
  have asked : Request.ofArguments ("build" :: arguments) =
      BuildArguments.read ⟨none, none, false⟩ arguments >>= BuildArguments.request := rfl
  rw [asked]
  cases read : BuildArguments.read ⟨none, none, false⟩ arguments with
  | error fault => exact .inl ⟨fault, rfl⟩
  | ok c =>
    obtain ⟨_ | input, output, verbose⟩ := c
    · exact .inl ⟨.missingInput, rfl⟩
    · obtain rfl : output = none := silent.output_of_read read
      exact .inr ⟨input, verbose, rfl⟩

end NoOutput

theorem runOn_of_error {arguments : List String} {fault : UsageFault} (t : FileTree)
    (asked : Request.ofArguments arguments = .error fault) :
    runOn arguments t = (refusal fault, t) := by
  rw [runOn, run, asked]
  rfl

theorem run_bind_of_eq {σ α β : Type} {x : StateM σ α} {f : α → StateM σ β} {s u : σ} {a : α}
    (ran : x.run s = (a, u)) : (x >>= f).run s = (f a).run u := by
  rw [StateT.run_bind, ran]
  rfl

theorem run_write (t : FileTree) (path : Path) (bytes : List UInt8) :
    (FileStore.write path bytes : StateM FileTree _).run t =
      match t.write path bytes with
      | .error fault => (.error fault, t)
      | .ok u => (.ok (), u) := by
  refine (run_bind_of_eq (x := get) rfl).trans ?_
  cases t.write path bytes <;> rfl

theorem runOn_build {arguments : List String} {input : Path} {output : Option Path} {verbose : Bool}
    (t : FileTree) (asked : Request.ofArguments arguments = .ok (.build input output verbose)) :
    runOn arguments t =
      match programOf input (t.read input) with
      | .error e => (.failure [e.message], t)
      | .ok p =>
        match t.write (outputPath input output) p.image with
        | .error fault => (.failure [s!"error: failed to write output: {fault.message}"], t)
        | .ok u => (built input (outputPath input output) verbose p, u) := by
  have loaded : (load input : StateM FileTree _).run t = (programOf input (t.read input), t) := rfl
  rw [runOn, run, asked]
  refine (run_bind_of_eq loaded).trans ?_
  cases programOf input (t.read input) with
  | error e => rfl
  | ok p =>
    refine (run_bind_of_eq (run_write t (outputPath input output) p.image)).trans ?_
    dsimp only
    cases t.write (outputPath input output) p.image <;> rfl

/-- The tree `u` is the tree `t` with the image of the program at `input`, next to it. -/
structure Imaged (t u : FileTree) (input : Path) (p : Program) (bytes : List UInt8)
    (directory : Location) (name : List Char) : Prop where
  source : t.read input = .ok bytes
  spelled : programOf input (.ok bytes) = .ok p
  found : t.locate input = .ok (directory ++ [name])
  image : u.read (Path.image input) = .ok p.image
  image_found : u.locate (Path.image input) = .ok (directory ++ [Path.imageName name])
  others : ∀ place, place ≠ directory ++ [Path.imageName name] → u.lookup? place = t.lookup? place
  kept : ¬ Path.IsBin name → u.read input = .ok bytes
  lost : Path.IsBin name → u.read input = .ok p.image
  isTree : u.IsTree

theorem FileTree.IsTree.imaged {t u : FileTree} (sound : t.IsTree) {input : Path} {p : Program}
    {bytes : List UInt8} (source : t.read input = .ok bytes)
    (spelled : programOf input (.ok bytes) = .ok p)
    (wrote : t.write (Path.image input) p.image = .ok u) :
    ∃ directory name, Imaged t u input p bytes directory name := by
  obtain ⟨directory, name, names, found, held⟩ := sound.names_of_read source
  obtain ⟨short, short_name, vacant, rfl⟩ := names.image.write_eq_ok_iff.mp wrote
  have image_found := names.image.locate_eq_ok_iff.mpr ⟨short, short_name, rfl⟩
  have others : ∀ place, place ≠ directory ++ [Path.imageName name] →
      (t.put (directory ++ [Path.imageName name]) (.file p.image)).lookup? place =
        t.lookup? place := fun place apart => FileTree.lookup?_put_of_ne apart.symm
  have stored : (t.put (directory ++ [Path.imageName name]) (.file p.image)).lookup?
      (directory ++ [Path.imageName name]) = some (.file p.image) :=
    FileTree.lookup?_put (List.concat_ne_nil _ _)
  refine ⟨directory, name, source, spelled, found, ?image, ?image_found, others, ?kept, ?lost,
    sound.put names.opened vacant⟩
  case image_found => exact FileTree.locate_put vacant image_found
  case image => exact FileTree.read_of_lookup? (FileTree.locate_put vacant image_found) stored
  case kept =>
    intro other_name
    have apart : directory ++ [name] ≠ directory ++ [Path.imageName name] := by
      intro same
      have own := (List.append_singleton_inj.mp same).2.symm
      exact other_name ((Path.imageName_eq_iff names.proper.ne_nil).mp own)
    exact FileTree.read_of_lookup? (FileTree.locate_put vacant found) ((others _ apart).trans held)
  case lost =>
    intro same_name
    rw [(Path.imageName_eq_iff names.proper.ne_nil).mpr same_name] at stored vacant ⊢
    exact FileTree.read_of_lookup? (FileTree.locate_put vacant found) stored

theorem exists_bytes_of_programOf {input : Path} {contents : Except ReadFault (List UInt8)}
    {p : Program} (loaded : programOf input contents = .ok p) : ∃ bytes, contents = .ok bytes := by
  match contents with
  | .ok bytes => exact ⟨bytes, rfl⟩
  | .error (.unopened cause) => cases loaded
  | .error (.unread cause) => cases loaded

/-- How a build without an output ends: with the tree as it was, or with an image in it. -/
inductive BuildEnds (t : FileTree) (arguments : List String) : Report → FileTree → Prop
  | refused {fault : UsageFault} :
      Request.ofArguments ("build" :: arguments) = .error fault →
        BuildEnds t arguments (refusal fault) t
  | unloadable {input : Path} {verbose : Bool} {e : LoadError} :
      Request.ofArguments ("build" :: arguments) = .ok (.build input none verbose) →
      programOf input (t.read input) = .error e →
        BuildEnds t arguments (.failure [e.message]) t
  | unwritable {input : Path} {verbose : Bool} {p : Program} {fault : FileFault} :
      Request.ofArguments ("build" :: arguments) = .ok (.build input none verbose) →
      programOf input (t.read input) = .ok p →
      t.write (Path.image input) p.image = .error fault →
        BuildEnds t arguments (.failure [s!"error: failed to write output: {fault.message}"]) t
  | written {input : Path} {verbose : Bool} {p : Program} {u : FileTree} {bytes : List UInt8}
      {directory : Location} {name : List Char} :
      Request.ofArguments ("build" :: arguments) = .ok (.build input none verbose) →
      Imaged t u input p bytes directory name →
        BuildEnds t arguments (built input (Path.image input) verbose p) u

/-- Whatever the tree and the arguments are, a build without an output leaves the tree as it was or
writes the image of its input, and nothing else. The input is kept, unless its name already ends in
`.bin`: then it is its own output, and the source is lost. -/
theorem build_ends {arguments : List String} (silent : NoOutput arguments) {t : FileTree}
    (sound : t.IsTree) :
    BuildEnds t arguments (runOn ("build" :: arguments) t).1
      (runOn ("build" :: arguments) t).2 := by
  obtain ⟨fault, asked⟩ | ⟨input, verbose, asked⟩ := silent.ofArguments
  · rw [runOn_of_error t asked]
    exact .refused asked
  · rw [runOn_build t asked]
    cases loaded : programOf input (t.read input) with
    | error e => exact .unloadable asked loaded
    | ok p =>
      dsimp only [outputPath, Option.getD_none]
      cases wrote : t.write (Path.image input) p.image with
      | error fault => exact .unwritable asked loaded wrote
      | ok u =>
        obtain ⟨bytes, source⟩ := exists_bytes_of_programOf loaded
        obtain ⟨directory, name, imaged⟩ := sound.imaged source (source ▸ loaded) wrote
        exact .written asked imaged

def sampleSource : List UInt8 := Listing.encode "#.program q\ne081\nff\n".toList

def sampleTree (name : String) : FileTree := ⟨[([name.toList], .file sampleSource)], []⟩

theorem build_ends_sampleTree :
    NoOutput ["q.pio"] ∧ (sampleTree "q.pio").IsTree ∧
    ∃ r u, runOn ["build", "q.pio"] (sampleTree "q.pio") = (r, u) ∧
      BuildEnds (sampleTree "q.pio") ["q.pio"] r u ∧
      r.outputText = "Wrote q.pio (2 instructions, 4 bytes) -> q.bin\n" ∧
      u.read "q.pio".toList = .ok sampleSource ∧
      u.read "q.bin".toList = .ok [0x81, 0xe0, 0xff, 0x00] := by
  have silent : NoOutput ["q.pio"] := by decide
  have sound : (sampleTree "q.pio").IsTree := by decide +kernel
  exact ⟨silent, sound, _, _, rfl, build_ends silent sound, by decide +kernel, by decide +kernel,
    by decide +kernel⟩

/-- So it is not the case that the input of a build can always be read again. -/
theorem not_source_always_kept :
    ¬ ∀ arguments t input verbose bytes p, NoOutput arguments → t.IsTree →
      Request.ofArguments ("build" :: arguments) = .ok (.build input none verbose) →
      t.read input = .ok bytes → programOf input (.ok bytes) = .ok p →
        (runOn ("build" :: arguments) t).2.read input = .ok bytes := by
  intro always
  have some_program : (programOf "q.bin".toList (.ok sampleSource)).toOption.isSome = true := by
    decide +kernel
  cases spelled : programOf "q.bin".toList (.ok sampleSource) with
  | error e =>
    rw [spelled] at some_program
    cases some_program
  | ok p =>
    have kept := always ["q.bin"] (sampleTree "q.bin") "q.bin".toList false sampleSource p
      (by decide) (by decide +kernel) (by decide +kernel) (by decide +kernel) spelled
    exact absurd kept (by decide +kernel)

end PioBlock.CommandLine
