import PioBlock.Numeral
import Mathlib.Data.Nat.Digits.Defs
import Mathlib.Tactic.Ring

/-! Numbers as they are written. Digits spell the value that positional notation gives them; a
decimal number is such a value with at most one sign, within 64 bits. The readers accept just
these texts and give these values. -/

namespace PioBlock.Numeral

/-- The digits of the text spell the value, the most significant one first. -/
def Spells (digit? : Char → Option Nat) (base : Nat) (text : List Char) (value : Nat) : Prop :=
  text ≠ [] ∧ ∃ digits : List Nat, text.map digit? = digits.map some ∧
    Nat.ofDigits base digits.reverse = value

/-- The text is a decimal integer of 64 bits. -/
inductive Decimal : List Char → Int → Prop where
  | plain {text : List Char} {n : Nat} (spells : Spells decimalDigit? 10 text n)
      (fits : n < 0x8000000000000000) : Decimal text n
  | plus {text : List Char} {n : Nat} (spells : Spells decimalDigit? 10 text n)
      (fits : n < 0x8000000000000000) : Decimal ('+' :: text) n
  | minus {text : List Char} {n : Nat} (spells : Spells decimalDigit? 10 text n)
      (fits : n ≤ 0x8000000000000000) : Decimal ('-' :: text) (-n)

theorem Spells.exists_digit {digit? : Char → Option Nat} {base : Nat} {text : List Char}
    {value : Nat} (spells : Spells digit? base text value) {c : Char} (hc : c ∈ text) :
    ∃ d, digit? c = some d := by
  obtain ⟨-, digits, spelt, -⟩ := spells
  have member : digit? c ∈ digits.map some := spelt ▸ List.mem_map_of_mem hc
  obtain ⟨d, -, eq⟩ := List.mem_map.mp member
  exact ⟨d, eq.symm⟩

theorem readDigits_eq_some_iff {digit? : Char → Option Nat} {base acc : Nat} {text : List Char}
    {value : Nat} :
    readDigits digit? base acc text = some value ↔
      ∃ digits : List Nat, text.map digit? = digits.map some ∧
        Nat.ofDigits base digits.reverse + acc * base ^ digits.length = value := by
  -- The digits read so far make up `acc`, and every digit to come moves them one place up.
  induction text generalizing acc with
  | nil =>
    constructor
    · intro h
      cases h
      exact ⟨[], rfl, by simp⟩
    · rintro ⟨digits, spelt, rfl⟩
      have none : digits = [] := List.map_eq_nil_iff.mp spelt.symm
      subst none
      simp [readDigits]
  | cons c text ih =>
    rw [readDigits]
    cases hc : digit? c with
    | none =>
      constructor
      · intro h
        cases h
      · rintro ⟨digits, spelt, -⟩
        cases digits <;> simp [hc] at spelt
    | some d =>
      rw [ih]
      constructor
      · rintro ⟨digits, spelt, rfl⟩
        refine ⟨d :: digits, by simp [hc, spelt], ?_⟩
        simp only [List.reverse_cons, Nat.ofDigits_append, Nat.ofDigits_singleton,
          List.length_reverse, List.length_cons, Nat.pow_succ]
        ring
      · rintro ⟨digits, spelt, rfl⟩
        cases digits with
        | nil => cases spelt
        | cons d' digits =>
          simp only [List.map_cons, hc, List.cons.injEq, Option.some.injEq] at spelt
          obtain ⟨rfl, spelt⟩ := spelt
          refine ⟨digits, spelt, ?_⟩
          simp only [List.reverse_cons, Nat.ofDigits_append, Nat.ofDigits_singleton,
            List.length_reverse, List.length_cons, Nat.pow_succ]
          ring

theorem readDigits_zero_iff {digit? : Char → Option Nat} {base : Nat} {text : List Char}
    {value : Nat} (ne : text ≠ []) :
    readDigits digit? base 0 text = some value ↔ Spells digit? base text value := by
  simp only [readDigits_eq_some_iff, Spells, ne, Nat.zero_mul, Nat.add_zero, ne_eq,
    not_false_eq_true, true_and]

theorem readDecimal?_eq_some_iff {text : List Char} {value : Nat} :
    readDecimal? text = some value ↔ Spells decimalDigit? 10 text value := by
  cases text with
  | nil => simp [readDecimal?, Spells]
  | cons c text => exact readDigits_zero_iff (List.cons_ne_nil c text)

theorem readHex?_eq_some_iff {text : List Char} {value : Nat} :
    readHex? text = some value ↔ Spells hexDigit? 16 text value := by
  cases text with
  | nil => simp [readHex?, Spells]
  | cons c text => exact readDigits_zero_iff (List.cons_ne_nil c text)

theorem in64?_eq_some_iff {z value : Int} :
    in64? z = some value ↔ z = value ∧ -0x8000000000000000 ≤ z ∧ z ≤ 0x7fffffffffffffff := by
  unfold in64?
  split
  · next inside => simp [inside]
  · next outside => simp [outside]

theorem not_spells_sign {c : Char} {text : List Char} {n : Nat} (sign : decimalDigit? c = none) :
    ¬Spells decimalDigit? 10 (c :: text) n := by
  rintro ⟨-, digits, spelt, -⟩
  cases digits <;> simp [sign] at spelt

theorem readInt?_eq_some_iff {text : List Char} {value : Int} :
    readInt? text = some value ↔ Decimal text value := by
  unfold readInt?
  split
  · next digits =>
    simp only [Option.bind_eq_some_iff, readDecimal?_eq_some_iff, in64?_eq_some_iff]
    constructor
    · rintro ⟨n, spells, rfl, low, -⟩
      exact .minus spells (by omega)
    · intro h
      cases h with
      | plain spells => exact absurd spells (not_spells_sign rfl)
      | @minus text n spells fits => exact ⟨n, spells, rfl, by omega, by omega⟩
  · next digits =>
    simp only [Option.bind_eq_some_iff, readDecimal?_eq_some_iff, in64?_eq_some_iff]
    constructor
    · rintro ⟨n, spells, rfl, -, high⟩
      exact .plus spells (by omega)
    · intro h
      cases h with
      | plain spells => exact absurd spells (not_spells_sign rfl)
      | @plus text n spells fits => exact ⟨n, spells, rfl, by omega, by omega⟩
  · next no_minus no_plus =>
    simp only [Option.bind_eq_some_iff, readDecimal?_eq_some_iff, in64?_eq_some_iff]
    constructor
    · rintro ⟨n, spells, rfl, -, high⟩
      exact .plain spells (by omega)
    · intro h
      cases h with
      | @plain _ n spells fits => exact ⟨n, spells, rfl, by omega, by omega⟩
      | plus => exact absurd rfl (no_plus _)
      | minus => exact absurd rfl (no_minus _)

theorem Spells.append {digit? : Char → Option Nat} {base : Nat} {text : List Char} {value : Nat}
    (spells : Spells digit? base text value) {c : Char} {d : Nat} (digit : digit? c = some d) :
    Spells digit? base (text ++ [c]) (value * base + d) := by
  obtain ⟨ne, digits, spelt, rfl⟩ := spells
  refine ⟨fun empty => ne (List.append_eq_nil_iff.mp empty).1, digits ++ [d], ?_, ?_⟩
  · rw [List.map_append, List.map_append, spelt, List.map_singleton, digit, List.map_singleton]
  · rw [List.reverse_append, List.reverse_singleton, List.singleton_append, Nat.ofDigits_cons]
    ring

theorem spells_toDigits (n : Nat) : Spells decimalDigit? 10 (Nat.toDigits 10 n) n := by
  have digit : ∀ d < 10, decimalDigit? d.digitChar = some d := by decide
  induction n using Nat.strongRecOn with
  | ind n ih =>
    rw [Nat.toDigits_eq_if (by decide)]
    split
    · next small => exact ⟨List.cons_ne_nil _ _, [n], by simp [digit n small], by simp⟩
    · next large =>
      have spells := (ih (n / 10) (by omega)).append (digit (n % 10) (Nat.mod_lt n (by decide)))
      rwa [Nat.div_add_mod'] at spells

end PioBlock.Numeral
