import PioBlock.RegisterFile

/-! What is done on a bus is a procedure: a tree whose nodes are reads and masked writes at byte
addresses and whose branches are their answers, each of which may be an error. A procedure runs
on any space that answers accesses, and the run keeps the accesses made, in order. -/

namespace PioBlock

inductive RegisterError where
  | unaligned (address : Word)
  | unmapped (address : Word)
  | faulted (address : Word) (fault : BlockFault)
deriving DecidableEq, Repr

namespace RegisterError

def address : RegisterError → Word
  | .unaligned a | .unmapped a | .faulted a _ => a

def message : RegisterError → String
  | .unaligned a => s!"unaligned register address {Numeral.hex 8 a.toNat}"
  | .unmapped a => s!"no register mapped at {Numeral.hex 8 a.toNat}"
  | .faulted a fault => s!"register access at {Numeral.hex 8 a.toNat} failed: {fault.message}"

end RegisterError

/-- Something that answers reads and masked writes at byte addresses. -/
class RegisterSpace (σ : Type) where
  read : Word → σ → Except RegisterError Word × σ
  write : Word → MaskedWrite → σ → Except RegisterError Unit × σ

/-- An access that was made, and its answer. -/
inductive Access where
  | read (address : Word) (answer : Except RegisterError Word)
  | write (address : Word) (change : MaskedWrite) (answer : Except RegisterError Unit)

namespace Access

def address : Access → Word
  | .read a _ | .write a _ _ => a

def error? : Access → Option RegisterError
  | .read _ (.error e) | .write _ _ (.error e) => some e
  | .read _ (.ok _) | .write _ _ (.ok _) => none

end Access

/-- The accesses that lead to a value, each chosen by the answers so far. -/
inductive Procedure (α : Type) where
  | done (value : α)
  | read (address : Word) (next : Except RegisterError Word → Procedure α)
  | write (address : Word) (change : MaskedWrite) (next : Except RegisterError Unit → Procedure α)

/-- How a run ended: its value, the space it leaves, and the accesses made. -/
structure Run (σ α : Type) where
  value : α
  space : σ
  trace : List Access

namespace Procedure

variable {α β γ σ : Type}

def bind : Procedure α → (α → Procedure β) → Procedure β
  | .done a, next => next a
  | .read address k, next => .read address fun answer => (k answer).bind next
  | .write address change k, next => .write address change fun answer => (k answer).bind next

instance : Monad Procedure where
  pure := .done
  bind := bind

@[simp] theorem done_bind (a : α) (next : α → Procedure β) : (done a >>= next) = next a := rfl

@[simp] theorem read_bind (address : Word) (k : Except RegisterError Word → Procedure α)
    (next : α → Procedure β) :
    (read address k >>= next) = read address fun answer => k answer >>= next := rfl

@[simp] theorem write_bind (address : Word) (change : MaskedWrite)
    (k : Except RegisterError Unit → Procedure α) (next : α → Procedure β) :
    (write address change k >>= next) = write address change fun answer => k answer >>= next := rfl

theorem bind_done (p : Procedure α) : p >>= done = p := by
  induction p with
  | done a => rfl
  | read address k ih => simp only [read_bind, ih]
  | write address change k ih => simp only [write_bind, ih]

theorem bind_assoc (p : Procedure α) (f : α → Procedure β) (g : β → Procedure γ) :
    p >>= f >>= g = p >>= fun a => f a >>= g := by
  induction p with
  | done a => rfl
  | read address k ih => simp only [read_bind, ih]
  | write address change k ih => simp only [write_bind, ih]

def run [RegisterSpace σ] : Procedure α → σ → Run σ α
  | .done a, s => ⟨a, s, []⟩
  | .read address k, s =>
    let answered := RegisterSpace.read address s
    let rest := (k answered.1).run answered.2
    { rest with trace := .read address answered.1 :: rest.trace }
  | .write address change k, s =>
    let answered := RegisterSpace.write address change s
    let rest := (k answered.1).run answered.2
    { rest with trace := .write address change answered.1 :: rest.trace }

@[simp] theorem run_done [RegisterSpace σ] (a : α) (s : σ) : (done a).run s = ⟨a, s, []⟩ := rfl

theorem run_bind [RegisterSpace σ] (p : Procedure α) (f : α → Procedure β) (s : σ) :
    (p >>= f).run s =
      let first := p.run s
      let second := (f first.value).run first.space
      ⟨second.value, second.space, first.trace ++ second.trace⟩ := by
  induction p generalizing s with
  | done a => rfl
  | read address k ih => simp only [read_bind, run, ih, List.cons_append]
  | write address change k ih => simp only [write_bind, run, ih, List.cons_append]

end Procedure

instance : LawfulMonad Procedure :=
  LawfulMonad.mk' Procedure Procedure.bind_done (fun _ _ => rfl) Procedure.bind_assoc

/-- A run of accesses that ends at the first failing one. -/
abbrev Transaction := ExceptT RegisterError Procedure

namespace Transaction

def read (address : Word) : Transaction Word :=
  ExceptT.mk (.read address .done)

def change (address : Word) (w : MaskedWrite) : Transaction Unit :=
  ExceptT.mk (.write address w .done)

/-- Writes a word to `address`, through the alias that the address names. -/
def write (address value : Word) : Transaction Unit :=
  change address (.ofAddress address value)

def writeAll : List (Word × Word) → Transaction Unit
  | [] => pure ()
  | (address, value) :: rest => do
    write address value
    writeAll rest

end Transaction

end PioBlock
