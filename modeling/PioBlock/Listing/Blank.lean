import PioBlock.Pieces

/-! Blank characters are those with the white-space property of Unicode. Texts are trimmed of
them and cut into words at them. -/

namespace PioBlock.Listing

/-- The code points with the white-space property, as ranges. -/
def blankRanges : List (Nat × Nat) :=
  [(0x9, 0xd), (0x20, 0x20), (0x85, 0x85), (0xa0, 0xa0), (0x1680, 0x1680), (0x2000, 0x200a),
    (0x2028, 0x2029), (0x202f, 0x202f), (0x205f, 0x205f), (0x3000, 0x3000)]

def isBlank (c : Char) : Bool :=
  blankRanges.any fun range => decide (range.1 ≤ c.toNat ∧ c.toNat ≤ range.2)

def trimStart (text : List Char) : List Char := text.dropWhile isBlank

def trimEnd (text : List Char) : List Char := (text.reverse.dropWhile isBlank).reverse

/-- The longest pieces without a blank. -/
def words : List Char → List (List Char)
  | [] => []
  | c :: rest =>
    if isBlank c then words rest
    else if rest.head?.all isBlank then [c] :: words rest
    else extendFirst c (words rest)

theorem words_cons_blank {c : Char} (h : isBlank c = true) (rest : List Char) :
    words (c :: rest) = words rest := by
  rw [words, if_pos h]

theorem words_of_no_blank {text : List Char} (ne : text ≠ [])
    (h : ∀ c ∈ text, isBlank c = false) : words text = [text] := by
  induction text with
  | nil => exact absurd rfl ne
  | cons c rest ih =>
    have hc : isBlank c = false := h c (List.mem_cons_self ..)
    cases rest with
    | nil => simp [words, hc]
    | cons d rest =>
      have hd : isBlank d = false := h d (by simp)
      rw [words, ih (by simp) fun x hx => h x (List.mem_cons_of_mem _ hx)]
      simp [hc, hd, extendFirst]

end PioBlock.Listing
