import Mathlib.Tactic.SplitIfs
import LetLang.Text.Bytes

/-! ASCII text. Its characters and its bytes correspond one to one, so reading
one byte per character gives the text back. In any text, an ASCII byte stands
only for its own character. -/
namespace LetLang.Text

/-- Every character is one of the first 128. -/
def IsAscii (text : String) : Prop := ∀ character ∈ text.toList, character.toNat < 128

/-- The bytes of a text are those of its characters, one after another. No byte belongs to
two characters. -/
theorem bytes_eq_flatMap (text : String) :
    bytes text = text.toList.flatMap String.utf8EncodeChar := by
  have hText : text.toByteArray = text.toList.utf8Encode := String.utf8Encode_toList.symm
  simp [bytes, hText, List.utf8Encode]

/-- Below 128 the encoding is the code point itself. -/
theorem encode_ascii {character : Char} (h : character.toNat < 128) :
    String.utf8EncodeChar character = [character.toUInt8] := by
  apply String.utf8EncodeChar_eq_singleton
  rw [Char.utf8Size_eq_one_iff, UInt32.le_iff_toNat_le]
  exact Nat.le_of_lt_succ h

theorem ofUInt8_toUInt8 {character : Char} (h : character.toNat < 128) :
    Char.ofUInt8 character.toUInt8 = character := by
  apply Char.ext
  apply UInt32.toNat_inj.mp
  change character.toNat % 256 = character.toNat
  omega

/-- A byte comes back from the character with its code point, also beyond ASCII, where it is
not the character's encoding. -/
theorem toUInt8_ofUInt8 (byte : UInt8) : (Char.ofUInt8 byte).toUInt8 = byte := by
  obtain ⟨⟨value⟩⟩ := byte
  revert value
  decide +kernel

theorem bytes_of_isAscii {text : String} (h : IsAscii text) :
    bytes text = text.toList.map Char.toUInt8 := by
  rw [bytes_eq_flatMap]
  unfold IsAscii at h
  generalize text.toList = characters at h
  induction characters with
  | nil => rfl
  | cons first rest ih =>
      rw [List.flatMap_cons, encode_ascii (h first List.mem_cons_self), List.map_cons,
        ih fun character hMem => h character (List.mem_cons_of_mem _ hMem)]
      rfl

/-- What holds of the codes of the characters holds of the bytes. -/
theorem IsAscii.exists_of_mem_bytes {text : String} (h : IsAscii text) {byte : UInt8}
    (hByte : byte ∈ bytes text) : ∃ character ∈ text.toList, character.toUInt8 = byte := by
  rw [bytes_of_isAscii h] at hByte
  exact List.mem_map.mp hByte

/-- No byte of ASCII text is part of a longer encoding. -/
theorem IsAscii.toNat_lt_of_mem {text : String} (h : IsAscii text) :
    ∀ byte ∈ bytes text, byte.toNat < 128 := by
  intro byte hByte
  obtain ⟨character, hMem, rfl⟩ := h.exists_of_mem_bytes hByte
  exact Nat.lt_of_le_of_lt (Nat.mod_le _ _) (h character hMem)

/-- ASCII bytes are the bytes of the text that has one character for each of them. -/
theorem bytes_ofCodePoints {text : List UInt8} (h : ∀ byte ∈ text, byte.toNat < 128) :
    bytes (ofCodePoints text) = text := by
  have hAscii : IsAscii (ofCodePoints text) := by
    intro character hMem
    rw [toList_ofCodePoints] at hMem
    obtain ⟨byte, hByte, rfl⟩ := List.mem_map.mp hMem
    exact h byte hByte
  rw [bytes_of_isAscii hAscii, toList_ofCodePoints, List.map_map]
  exact (List.map_congr_left fun byte _ => toUInt8_ofUInt8 byte).trans (List.map_id' _)

/-- ASCII text is read back from its bytes one by one, without decoding them. -/
theorem ofCodePoints_bytes {text : String} (h : IsAscii text) :
    ofCodePoints (bytes text) = text := by
  have hEach : (text.toList.map Char.toUInt8).map Char.ofUInt8 = text.toList := by
    rw [List.map_map]
    exact (List.map_congr_left fun character hMem => ofUInt8_toUInt8 (h character hMem)).trans
      (List.map_id' _)
  rw [ofCodePoints, bytes_of_isAscii h, hEach, String.ofList_toList]

/-- Characters beyond ASCII are encoded in bytes from 128 upwards, so a byte below
is the whole encoding of its character. -/
theorem toNat_eq_of_mem_encode {character : Char} {byte : UInt8}
    (h : byte ∈ String.utf8EncodeChar character) (hByte : byte.toNat < 128) :
    character.toNat = byte.toNat := by
  change character.val.toNat = byte.toNat
  unfold String.utf8EncodeChar at h
  dsimp only at h
  generalize character.val.toNat = value at h ⊢
  split_ifs at h <;> simp only [List.mem_cons, List.not_mem_nil, or_false] at h
  · subst h
    rw [UInt8.toNat_ofNat']
    omega
  · rcases h with rfl | rfl <;> rw [UInt8.toNat_ofNat'] at hByte <;> omega
  · rcases h with rfl | rfl | rfl <;> rw [UInt8.toNat_ofNat'] at hByte <;> omega
  · rcases h with rfl | rfl | rfl | rfl <;> rw [UInt8.toNat_ofNat'] at hByte <;> omega

/-- An ASCII byte stands only for its own character. -/
theorem toUInt8_mem_bytes_iff {mark : Char} (hMark : mark.toNat < 128) (text : String) :
    mark.toUInt8 ∈ bytes text ↔ mark ∈ text.toList := by
  rw [bytes_eq_flatMap, List.mem_flatMap]
  constructor
  · rintro ⟨character, hCharacter, hMem⟩
    have hByte : mark.toUInt8.toNat = mark.toNat := by
      change mark.toNat % 256 = mark.toNat
      omega
    have hSame := toNat_eq_of_mem_encode hMem (by omega)
    rwa [← Char.toNat_inj.mp (hSame.trans hByte)]
  · intro hMem
    refine ⟨mark, hMem, ?_⟩
    rw [encode_ascii hMark]
    exact List.mem_singleton_self _

/-- A NUL byte comes from nothing but a NUL character. -/
theorem zero_mem_bytes_iff (text : String) : 0 ∈ bytes text ↔ '\x00' ∈ text.toList := by
  have hMark : ('\x00').toNat < 128 := by decide
  exact toUInt8_mem_bytes_iff hMark text

end LetLang.Text
