/-! Text as bytes. Source text is read as its UTF-8 bytes; bytes go back to
text either as UTF-8, which can fail, or one byte per character, which cannot. -/
namespace LetLang.Text

/-- The UTF-8 bytes of a text. -/
def bytes (text : String) : List UInt8 := text.toUTF8.data.toList

/-- The text with these UTF-8 bytes, if they are valid UTF-8. -/
def ofBytes? (bytes : List UInt8) : Option String := String.fromUTF8? ⟨bytes.toArray⟩

/-- Read one byte per character: each byte is the code point of its character. -/
def ofCodePoints (bytes : List UInt8) : String := String.ofList (bytes.map Char.ofUInt8)

/-- Encoding is character by character, so texts may be put together before or after. -/
theorem bytes_append (first second : String) :
    bytes (first ++ second) = bytes first ++ bytes second := by
  simp [bytes, String.toByteArray_append]

theorem bytes_join (texts : List String) :
    bytes (String.join texts) = texts.flatMap bytes := by
  induction texts with
  | nil => rfl
  | cons text texts ih => rw [String.join_cons, bytes_append, List.flatMap_cons, ih]

/-- A text is read back from its own bytes. -/
theorem ofBytes?_bytes (text : String) : ofBytes? (bytes text) = some text := by
  have hArray : (⟨(bytes text).toArray⟩ : ByteArray) = text.toByteArray := by
    simp [bytes]
  simp [ofBytes?, hArray, String.fromUTF8?, text.isValidUTF8, String.fromUTF8]

theorem bytes_injective {first second : String} (h : bytes first = bytes second) :
    first = second := by
  have hText := ofBytes?_bytes first
  rw [h, ofBytes?_bytes] at hText
  exact (Option.some.inj hText).symm

/-- Only the bytes of a text are read as that text. -/
theorem eq_bytes_of_ofBytes?_eq_some {input : List UInt8} {text : String}
    (h : ofBytes? input = some text) : input = bytes text := by
  unfold ofBytes? String.fromUTF8? at h
  split at h
  · obtain rfl := Option.some.inj h
    simp [bytes, String.fromUTF8]
  · contradiction

@[simp] theorem bytes_empty : bytes "" = [] := rfl

theorem toList_ofCodePoints (bytes : List UInt8) :
    (ofCodePoints bytes).toList = bytes.map Char.ofUInt8 := by
  simp [ofCodePoints]

end LetLang.Text
