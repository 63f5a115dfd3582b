import PioBlock.Proofs.Listing.Lines
import PioBlock.Proofs.Listing.Reading

/-! Reading the bytes of a file. The bytes of a line feed and of a carriage return stand for nothing
else in UTF-8, so bytes are cut into lines where the text is, and a file that is text is read as
that text. In a file that is none, some line is the first that is none; the lines before it are a
text of their own, and what is wrong with them is told before. -/

namespace PioBlock.Listing

def encode (text : List Char) : List UInt8 := text.flatMap String.utf8EncodeChar

theorem encode_append (text more : List Char) : encode (text ++ more) = encode text ++ encode more :=
  List.flatMap_append

theorem encode_cons (c : Char) (text : List Char) :
    encode (c :: text) = String.utf8EncodeChar c ++ encode text := List.flatMap_cons

theorem decode?_encode (text : List Char) : decode? (encode text) = some text := by
  have bytes : text.utf8Encode.data.toList = encode text := by simp [List.utf8Encode, encode]
  rw [← bytes]
  exact decode?_utf8Encode text

theorem decode?_eq_some_iff {bytes : List UInt8} {text : List Char} :
    decode? bytes = some text ↔ bytes = encode text := by
  constructor
  · intro decoded
    obtain ⟨chars, valid, -⟩ := Option.map_eq_some_iff.mp decoded
    obtain ⟨text', spelt⟩ := ByteArray.isSome_utf8Decode?_iff.mp (Option.isSome_of_eq_some valid)
    obtain rfl : bytes = encode text' := List.toByteArray_inj.mp spelt
    rw [decode?_encode] at decoded
    rw [Option.some.inj decoded]
  · rintro rfl
    exact decode?_encode text

theorem decode?_eq_none_iff {bytes : List UInt8} :
    decode? bytes = none ↔ ∀ text, bytes ≠ encode text := by
  rw [Option.eq_none_iff_forall_ne_some]
  exact forall_congr' fun text => not_congr decode?_eq_some_iff

theorem toNat_of_mem_utf8EncodeChar {c : Char} {b : UInt8} (low : b.toNat < 128)
    (member : b ∈ String.utf8EncodeChar c) : c.toNat = b.toNat := by
  have scalar : c.toNat = c.val.toNat := rfl
  rw [String.utf8EncodeChar.eq_1] at member
  split at member
  · rw [List.mem_singleton] at member
    rw [member, UInt8.toNat_ofNat']
    omega
  · -- The bytes of all other forms are 128 and above.
    have high : 128 ≤ b.toNat := by
      split at member
      · simp only [List.mem_cons, List.not_mem_nil, or_false] at member
        rcases member with rfl | rfl <;> rw [UInt8.toNat_ofNat'] <;> omega
      · split at member
        · simp only [List.mem_cons, List.not_mem_nil, or_false] at member
          rcases member with rfl | rfl | rfl <;> rw [UInt8.toNat_ofNat'] <;> omega
        · simp only [List.mem_cons, List.not_mem_nil, or_false] at member
          rcases member with rfl | rfl | rfl | rfl <;> rw [UInt8.toNat_ofNat'] <;> omega
    omega

theorem eq_feed_of_mem {c : Char} (byte : 10 ∈ String.utf8EncodeChar c) : c = '\n' :=
  Char.ext (UInt32.toNat.inj (toNat_of_mem_utf8EncodeChar (by decide) byte))

theorem eq_ret_of_mem {c : Char} (byte : 13 ∈ String.utf8EncodeChar c) : c = '\r' :=
  Char.ext (UInt32.toNat.inj (toNat_of_mem_utf8EncodeChar (by decide) byte))

theorem feed_mem_encode {text : List Char} : 10 ∈ encode text ↔ '\n' ∈ text := by
  rw [encode, List.mem_flatMap]
  exact ⟨fun ⟨_, member, byte⟩ => eq_feed_of_mem byte ▸ member, fun member => ⟨_, member, by decide⟩⟩

theorem encode_append_feed_cons (line rest : List Char) :
    encode (line ++ '\n' :: rest) = encode line ++ 10 :: encode rest :=
  encode_append line ('\n' :: rest)

theorem encode_append_ret (line : List Char) : encode (line ++ ['\r']) = encode line ++ [13] :=
  encode_append line ['\r']

theorem chop_encode (line : List Char) : chop 13 (encode line) = encode (chop '\r' line) := by
  by_cases ends : line.getLast? = some '\r'
  · obtain ⟨front, rfl⟩ := List.getLast?_eq_some_iff.mp ends
    rw [encode_append_ret, chop_append_ret, chop_append_ret]
  · rw [chop_of_getLast?_ne ends, chop_of_getLast?_ne]
    intro ends'
    obtain rfl | ⟨front, c, rfl⟩ := List.eq_nil_or_concat line
    · cases ends'
    · -- The last byte comes from the last character, which is no carriage return.
      have bytes : encode (front ++ [c]) = encode front ++ String.utf8EncodeChar c := by
        rw [encode_append, encode_cons]
        exact congrArg (encode front ++ ·) (List.append_nil _)
      rw [List.concat_eq_append] at ends ends'
      rw [bytes, List.getLast?_append_of_ne_nil _ String.utf8EncodeChar_ne_nil] at ends'
      rw [eq_ret_of_mem (List.mem_of_getLast? ends'), List.getLast?_append_of_ne_nil _
        (List.cons_ne_nil _ _)] at ends
      exact ends rfl

theorem byteLines_encode (text : List Char) :
    byteLines (encode text) = (textLines text).map encode := by
  rw [byteLines, textLines]
  induction text using lines_induction '\n' with
  | last line apart =>
    have apart' := mt feed_mem_encode.mp apart
    cases line with
    | nil => rfl
    | cons c line =>
      have some_bytes : encode (c :: line) ≠ [] := fun none =>
        String.utf8EncodeChar_ne_nil (List.append_eq_nil_iff.mp (encode_cons c line ▸ none)).1
      rw [cutLines_of_not_mem apart' some_bytes, cutLines_of_not_mem apart (List.cons_ne_nil c line)]
      rfl
  | more line rest apart ih =>
    rw [encode_append_feed_cons, cutLines_append (mt feed_mem_encode.mp apart), ih,
      cutLines_append apart, List.map_cons, chop_encode]

theorem map_sourceOfBytes_encode (lines : List (List Char)) :
    (lines.map encode).map sourceOfBytes = lines.map .ok := by
  rw [List.map_map]
  refine List.map_congr_left fun line _ => ?_
  rw [Function.comp_apply, sourceOfBytes, decode?_encode]

theorem decode?_chop_eq_none {line : List UInt8} (bad : decode? line = none) :
    decode? (chop 13 line) = none := by
  rw [decode?_eq_none_iff] at bad ⊢
  intro text spelt
  rcases eq_chop_or 13 line with same | same
  · exact bad text (same.trans spelt)
  · refine bad (text ++ ['\r']) ?_
    rw [encode_append_ret, ← spelt]
    exact same

/-- The first line that is no text. Before it are whole lines that spell a text, and after it there
is nothing or its line feed. -/
structure Unreadable (bytes : List UInt8) (text : List Char) (line after : List UInt8) : Prop where
  split : bytes = encode text ++ line ++ after
  whole : Terminated 10 (encode text)
  lone : 10 ∉ line
  bad : decode? line = none
  ended : after = [] ∨ ∃ rest, after = 10 :: rest

theorem exists_unreadable {bytes : List UInt8} (bad : decode? bytes = none) :
    ∃ text line after, Unreadable bytes text line after := by
  induction bytes using lines_induction (10 : UInt8) with
  | last line apart =>
    exact ⟨[], line, [], (List.append_nil line).symm, terminated_nil, apart, bad, Or.inl rfl⟩
  | more line rest apart ih =>
    cases readable : decode? line with
    | none => exact ⟨[], line, 10 :: rest, rfl, terminated_nil, apart, readable, Or.inr ⟨rest, rfl⟩⟩
    | some first =>
      obtain rfl := decode?_eq_some_iff.mp readable
      have later : decode? rest = none := by
        rw [decode?_eq_none_iff] at bad ⊢
        rintro text rfl
        exact bad (first ++ '\n' :: text) (encode_append_feed_cons first text).symm
      obtain ⟨text, line', after, split, whole, lone, bad', ended⟩ := ih later
      refine ⟨first ++ '\n' :: text, line', after, ?_, ?_, lone, bad', ended⟩
      · rw [encode_append_feed_cons, split]
        simp only [List.append_assoc, List.cons_append]
      · rw [encode_append_feed_cons]
        exact terminated_append_feed_cons.mpr whole

namespace Unreadable

variable {bytes : List UInt8} {text : List Char} {line after : List UInt8}

theorem sources_eq (unreadable : Unreadable bytes text line after) :
    ∃ rest, (byteLines bytes).map sourceOfBytes =
      (textLines text).map .ok ++ .error notText :: rest := by
  obtain ⟨rfl, whole, lone, bad, ended⟩ := unreadable
  have some_line : line ≠ [] := by
    rintro rfl
    exact decode?_eq_none_iff.mp bad [] rfl
  rw [List.append_assoc, byteLines, cutLines_append_of_terminated whole, ← byteLines,
    byteLines_encode, List.map_append, map_sourceOfBytes_encode]
  obtain rfl | ⟨rest, rfl⟩ := ended
  · rw [List.append_nil, cutLines_of_not_mem lone some_line, List.map_singleton, sourceOfBytes, bad]
    exact ⟨[], rfl⟩
  · rw [cutLines_append lone, List.map_cons, sourceOfBytes, decode?_chop_eq_none bad]
    exact ⟨_, rfl⟩

theorem length_textLines (unreadable : Unreadable bytes text line after) :
    (textLines text).length = (encode text).count 10 := by
  have cut : (byteLines (encode text)).length = (encode text).count 10 :=
    length_cutLines_of_terminated unreadable.whole
  rwa [byteLines_encode, List.length_map] at cut

end Unreadable

/-- Bytes that spell a text are read as that text. In any others a line is the first that is no
text, and they are refused: with the complaint about one of the lines before it if there is one,
otherwise because that line cannot be read, by its number. -/
theorem readBytes_eq_read (resource : String) (bytes : List UInt8) :
    (∀ text, decode? bytes = some text →
      readBytes resource bytes = read resource (String.ofList text)) ∧
    (decode? bytes = none →
      (∃ text line after, Unreadable bytes text line after) ∧
      ∀ text line after, Unreadable bytes text line after →
        readBytes resource bytes =
          match Progress.start.steps resource ((textLines text).map .ok) with
          | .error d => .error d
          | .ok _ =>
            .error ⟨resource, (encode text).count 10 + 1, .unreadable notText, none⟩) := by
  constructor
  · intro text decoded
    rw [decode?_eq_some_iff.mp decoded, readBytes, byteLines_encode, map_sourceOfBytes_encode, read,
      String.toList_ofList]
    rfl
  · refine fun bad => ⟨exists_unreadable bad, fun text line after unreadable => ?_⟩
    obtain ⟨rest, sources⟩ := unreadable.sources_eq
    rw [readBytes, readLines, sources, Progress.steps_append]
    cases taken : Progress.start.steps resource ((textLines text).map .ok) with
    | error d => rfl
    | ok p =>
      change Progress.steps resource ⟨0, .collect []⟩ _ = .ok p at taken
      obtain ⟨items, -, -, rfl⟩ := (Progress.steps_eq_ok_iff fits_nil).mp taken
      rw [unreadable.length_textLines, Nat.zero_add]
      rfl

theorem readBytes_eq_read_second :
    Unreadable [0x31, 13, 10, 0xff, 10, 0x32] ['1', '\r', '\n'] [0xff] [10, 0x32] ∧
    readBytes "r" [0x31, 13, 10, 0xff, 10, 0x32] =
      .error ⟨"r", 2, .unreadable notText, none⟩ := by
  have unreadable : Unreadable [0x31, 13, 10, 0xff, 10, 0x32] ['1', '\r', '\n'] [0xff] [10, 0x32] :=
    ⟨by decide, fun _ last => (Option.some.inj last).symm, by decide, by decide,
      Or.inr ⟨[0x32], rfl⟩⟩
  have refused := (readBytes_eq_read "r" [0x31, 13, 10, 0xff, 10, 0x32]).2 (by decide)
  exact ⟨unreadable, refused.2 _ _ _ unreadable⟩

/-- What is wrong with the first line is told before the second turns out to be no text. -/
example : readBytes "r" [0x7a, 13, 10, 0xff] =
    .error ⟨"r", 1, .invalidInstruction "z", none⟩ := by decide

end PioBlock.Listing
