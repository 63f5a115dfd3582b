import PioBlock.Proofs.Fields
import PioBlock.Config

/-! The fields of a configuration. A configuration is four words, so a field of it is a field of one
of them. Fields that share no bit are independent of each other, and a list of replacements of
such fields leaves in each of them what was put there, in whatever order they are made. -/

namespace PioBlock

inductive ConfigWord where
  | clkdiv
  | execctrl
  | shiftctrl
  | pinctrl
deriving DecidableEq, Repr

namespace Config

def word (c : Config) : ConfigWord → Word
  | .clkdiv => c.clkdiv
  | .execctrl => c.execctrl
  | .shiftctrl => c.shiftctrl
  | .pinctrl => c.pinctrl

def setWord (c : Config) (value : Word) : ConfigWord → Config
  | .clkdiv => { c with clkdiv := value }
  | .execctrl => { c with execctrl := value }
  | .shiftctrl => { c with shiftctrl := value }
  | .pinctrl => { c with pinctrl := value }

variable {c c' : Config}

theorem eq_of_word_eq (same : ∀ w, c'.word w = c.word w) : c' = c := by
  obtain ⟨a, b, s, p⟩ := c
  obtain ⟨a', b', s', p'⟩ := c'
  obtain rfl : a' = a := same .clkdiv
  obtain rfl : b' = b := same .execctrl
  obtain rfl : s' = s := same .shiftctrl
  obtain rfl : p' = p := same .pinctrl
  rfl

theorem word_setWord (c : Config) (value : Word) (w w' : ConfigWord) :
    (c.setWord value w).word w' = if w = w' then value else c.word w' := by
  cases w <;> cases w' <;> rfl

end Config

structure ConfigField where
  word : ConfigWord
  field : Field
deriving DecidableEq, Repr

namespace ConfigField

variable {f g : ConfigField} {c c' : Config} {v u : Word}

def get (f : ConfigField) (c : Config) : Word := f.field.extract (c.word f.word)

def put (f : ConfigField) (v : Word) (c : Config) : Config :=
  c.setWord (f.field.insert (c.word f.word) v) f.word

def covers (f : ConfigField) (w : ConfigWord) (i : Nat) : Bool :=
  decide (f.word = w) && f.field.covers i

def Apart (f g : ConfigField) : Prop := f.word = g.word → f.field.Apart g.field

instance (f g : ConfigField) : Decidable (f.Apart g) :=
  inferInstanceAs (Decidable (_ → _))

theorem Apart.symm (apart : f.Apart g) : g.Apart f := fun same => (apart same.symm).symm

theorem word_put (f : ConfigField) (v : Word) (c : Config) (w : ConfigWord) :
    (f.put v c).word w = if f.word = w then f.field.insert (c.word w) v else c.word w := by
  rw [put, Config.word_setWord]
  split
  · next same => rw [same]
  · rfl

theorem get_put (f : ConfigField) (v : Word) (c : Config) :
    f.get (f.put v c) = v &&& f.field.max := by
  rw [get, word_put, if_pos rfl, Field.extract_insert]

theorem get_put_of_apart (apart : f.Apart g) (v : Word) (c : Config) :
    f.get (g.put v c) = f.get c := by
  rw [get, get, word_put]
  split
  · next same => exact Field.extract_insert_of_apart (apart same.symm) _ v
  · rfl

theorem bit_put_of_not_covers {w : ConfigWord} {i : Nat} (outside : f.covers w i = false)
    (v : Word) (c : Config) : ((f.put v c).word w).getLsbD i = (c.word w).getLsbD i := by
  rw [word_put]
  split
  · next same =>
    have apart : f.field.covers i = false := by simpa [covers, same] using outside
    exact Field.getLsbD_insert_of_outside apart _ v
  · rfl

theorem put_put_of_apart (apart : f.Apart g) (v u : Word) (c : Config) :
    f.put v (g.put u c) = g.put u (f.put v c) := by
  apply Config.eq_of_word_eq
  intro w
  simp only [word_put]
  by_cases hf : f.word = w
  · by_cases hg : g.word = w
    · simp only [if_pos hf, if_pos hg]
      exact Field.insert_insert_of_apart (apart (hf.trans hg.symm)) _ v u
    · simp only [if_pos hf, if_neg hg]
  · simp only [if_neg hf]

theorem getLsbD_of_covers {w : ConfigWord} {i : Nat} (inside : f.covers w i = true) (c : Config) :
    (c.word w).getLsbD i = (f.get c).getLsbD (i - f.field.lsb) := by
  rw [covers, Bool.and_eq_true, decide_eq_true_eq] at inside
  obtain ⟨rfl, inside⟩ := inside
  exact Field.getLsbD_of_covers inside _

end ConfigField

namespace Config

def putAll (c : Config) (stores : List (ConfigField × Word)) : Config :=
  stores.foldl (fun c store => store.1.put store.2 c) c

variable {stores others : List (ConfigField × Word)} {f : ConfigField}

theorem putAll_cons (c : Config) (f : ConfigField) (v : Word)
    (stores : List (ConfigField × Word)) :
    c.putAll ((f, v) :: stores) = (f.put v c).putAll stores := rfl

theorem get_putAll_of_apart (apart : ∀ store ∈ stores, f.Apart store.1) (c : Config) :
    f.get (c.putAll stores) = f.get c := by
  induction stores generalizing c with
  | nil => rfl
  | cons store rest ih =>
    obtain ⟨first, apart⟩ := List.forall_mem_cons.mp apart
    rw [putAll_cons, ih apart, ConfigField.get_put_of_apart first]

theorem get_putAll (apart : stores.Pairwise fun a b => a.1.Apart b.1) (c : Config) :
    ∀ store ∈ stores, store.1.get (c.putAll stores) = store.2 &&& store.1.field.max := by
  induction stores generalizing c with
  | nil => exact fun store member => nomatch member
  | cons store rest ih =>
    obtain ⟨first, apart⟩ := List.pairwise_cons.mp apart
    refine List.forall_mem_cons.mpr ⟨?_, ih apart _⟩
    rw [putAll_cons, get_putAll_of_apart first, ConfigField.get_put]

theorem bit_putAll_of_not_covers {w : ConfigWord} {i : Nat}
    (outside : ∀ store ∈ stores, store.1.covers w i = false) (c : Config) :
    ((c.putAll stores).word w).getLsbD i = (c.word w).getLsbD i := by
  induction stores generalizing c with
  | nil => rfl
  | cons store rest ih =>
    obtain ⟨first, outside⟩ := List.forall_mem_cons.mp outside
    rw [putAll_cons, ih outside, ConfigField.bit_put_of_not_covers first]

theorem putAll_put (apart : ∀ store ∈ stores, store.1.Apart f) (v : Word) (c : Config) :
    (f.put v c).putAll stores = f.put v (c.putAll stores) := by
  induction stores generalizing c with
  | nil => rfl
  | cons store rest ih =>
    obtain ⟨first, apart⟩ := List.forall_mem_cons.mp apart
    rw [putAll_cons, putAll_cons, ConfigField.put_put_of_apart first, ih apart]

theorem putAll_putAll (apart : ∀ store ∈ stores, ∀ other ∈ others, store.1.Apart other.1)
    (c : Config) : (c.putAll stores).putAll others = (c.putAll others).putAll stores := by
  induction stores generalizing c with
  | nil => rfl
  | cons store rest ih =>
    obtain ⟨first, apart⟩ := List.forall_mem_cons.mp apart
    have after : (store.1.put store.2 c).putAll others = store.1.put store.2 (c.putAll others) :=
      putAll_put (fun other member => (first other member).symm) store.2 c
    rw [putAll_cons, putAll_cons, ih apart, after]

end Config

end PioBlock
