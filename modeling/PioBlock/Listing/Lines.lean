import PioBlock.Listing.Blank

/-! A text is cut into lines, and so are the bytes of a file, by one rule: a line ends at a line
feed, a carriage return right before that belongs to the ending, and what follows the last line
feed is a line of its own unless it is empty. -/

namespace PioBlock.Listing

variable {α : Type} [DecidableEq α]

/-- Cuts at `feed`, dropping a `ret` right before it. -/
def cutLines (feed ret : α) : List α → List (List α)
  | [] => []
  | c :: rest =>
    if c = feed then [] :: cutLines feed ret rest
    else if c = ret ∧ rest.head? = some feed then cutLines feed ret rest
    else extendFirst c (cutLines feed ret rest)

theorem cutLines_feed (feed ret : α) (rest : List α) :
    cutLines feed ret (feed :: rest) = [] :: cutLines feed ret rest := by
  rw [cutLines, if_pos rfl]

def textLines (text : List Char) : List (List Char) := cutLines '\n' '\r' text

def byteLines (bytes : List UInt8) : List (List UInt8) := cutLines 10 13 bytes

def decode? (bytes : List UInt8) : Option (List Char) :=
  bytes.toByteArray.utf8Decode?.map (·.toList)

theorem decode?_utf8Encode (text : List Char) :
    decode? text.utf8Encode.data.toList = some text := by
  have bytes : text.utf8Encode.data.toList.toByteArray = text.utf8Encode := by
    apply ByteArray.ext
    simp
  rw [decode?, bytes, List.utf8Decode?_utf8Encode]
  simp

end PioBlock.Listing
