import LetLang.Proofs.Text.Ascii
import LetLang.Proofs.Token.Spelling

/-! Reading text that is put together from pieces. Blanks add no token, a token
is read back from its own literal unless the next byte extends it, and the
tokens before a byte that extends none are those of the bytes before it. -/
namespace LetLang

namespace Text

theorem val_lt_of_le {character last : Char} (h : character.val ≤ last.val)
    (hLast : last.val.toNat < 128) : character.val.toNat < 128 :=
  Nat.lt_of_le_of_lt (UInt32.le_iff_toNat_le.mp h) hLast

/-- Only ASCII letters count as letters, so a word has one byte for each character. -/
theorem IsWord.isAscii {text : String} (h : IsWord text) : IsAscii text := by
  intro character hMem
  rcases h.2 character hMem with hAlpha | rfl
  · rcases Bool.or_eq_true_iff.mp hAlpha with hUpper | hLower
    · have hLast : character.val ≤ 'Z'.val := (of_decide_eq_true hUpper).2
      exact val_lt_of_le hLast (by decide)
    · have hLast : character.val ≤ 'z'.val :=
        of_decide_eq_true (Bool.and_eq_true_iff.mp hLower).2
      exact val_lt_of_le hLast (by decide)
  · decide

/-- No digit of another script counts as one. -/
theorem IsNumeral.isAscii {text : String} (h : IsNumeral text) : IsAscii text := by
  intro character hMem
  have hLast : character.val ≤ '9'.val :=
    of_decide_eq_true (Bool.and_eq_true_iff.mp (h.2 character hMem)).2
  exact val_lt_of_le hLast (by decide)

/-- The lexer asks bytes for their class, not characters. In a word both answer alike. -/
theorem IsWord.isLetter_of_mem {text : String} (h : IsWord text) {byte : UInt8}
    (hByte : byte ∈ bytes text) : Byte.isLetter byte = true := by
  obtain ⟨character, hMem, rfl⟩ := h.isAscii.exists_of_mem_bytes hByte
  simpa [Byte.isLetter, ofUInt8_toUInt8 (h.isAscii character hMem)] using h.2 character hMem

theorem IsNumeral.isDigit_of_mem {text : String} (h : IsNumeral text) {byte : UInt8}
    (hByte : byte ∈ bytes text) : Byte.isDigit byte = true := by
  obtain ⟨character, hMem, rfl⟩ := h.isAscii.exists_of_mem_bytes hByte
  simpa [Byte.isDigit, ofUInt8_toUInt8 (h.isAscii character hMem)] using h.2 character hMem

theorem bytes_ne_nil {text : String} (h : text.toList ≠ []) : bytes text ≠ [] := by
  rw [bytes_eq_flatMap]
  obtain ⟨first, rest, hText⟩ := List.exists_cons_of_ne_nil h
  simp [hText, String.utf8EncodeChar_ne_nil]

end Text

namespace Byte

/-- Letters and digits are four disjoint ranges and the underscore, so a test
of all bytes decides what a byte of one class is not. -/
theorem of_isLetter {byte : UInt8} (h : isLetter byte = true) :
    byte ≠ 0 ∧ isBlank byte = false := by
  obtain ⟨⟨value⟩⟩ := byte
  revert value
  decide +kernel

/-- A digit is nothing that the lexer tries before it tries digits. -/
theorem of_isDigit {byte : UInt8} (h : isDigit byte = true) :
    byte ≠ 0 ∧ isBlank byte = false ∧ isLetter byte = false := by
  obtain ⟨⟨value⟩⟩ := byte
  revert value
  decide +kernel

/-- A byte that no token directly before it takes in. -/
def isBreak (byte : UInt8) : Bool :=
  !isLetter byte && !isDigit byte && Char.ofUInt8 byte != '='

/-- The byte of a symbol is nothing that the lexer tries before it tries symbols, so the
order of its tests takes no symbol away. -/
theorem of_ofChar? {byte : UInt8} {symbol : Symbol}
    (h : Symbol.ofChar? (Char.ofUInt8 byte) = some symbol) :
    byte ≠ 0 ∧ isBlank byte = false ∧ isLetter byte = false ∧ isDigit byte = false := by
  have hSome : (Symbol.ofChar? (Char.ofUInt8 byte)).isSome = true := by rw [h]; rfl
  clear h
  obtain ⟨⟨value⟩⟩ := byte
  revert value
  decide +kernel

/-- Bytes that take nothing of a token before them. -/
def Breaks (bytes : List UInt8) : Prop := ∀ byte ∈ bytes.head?, isBreak byte = true

theorem breaks_nil : Breaks [] := by
  intro byte hByte
  cases hByte

/-- Only the first byte behind a token matters. -/
theorem breaks_cons {byte : UInt8} (h : isBreak byte = true) (rest : List UInt8) :
    Breaks (byte :: rest) := by
  intro first hFirst
  obtain rfl : byte = first := Option.some.inj hFirst
  exact h

theorem breaks_space (rest : List UInt8) : Breaks (Text.bytes " " ++ rest) :=
  breaks_cons (by decide) rest

theorem breaks_close (rest : List UInt8) : Breaks (Text.bytes ")" ++ rest) :=
  breaks_cons (by decide) rest

theorem breaks_semicolon (rest : List UInt8) : Breaks (Text.bytes ";" ++ rest) :=
  breaks_cons (by decide) rest

theorem breaks_newline (rest : List UInt8) : Breaks (Text.bytes "\n" ++ rest) :=
  breaks_cons (by decide) rest

end Byte

namespace Symbol

/-- A symbol is spelled by one byte, or by the byte of a shorter symbol and an
equals sign. -/
theorem spelling_bytes (symbol : Symbol) :
    (∃ first, Text.bytes symbol.spelling = [first] ∧
      ofChar? (Char.ofUInt8 first) = some symbol) ∨
    (∃ shorter first, Text.bytes symbol.spelling = [first, 0x3d] ∧
      ofChar? (Char.ofUInt8 first) = some shorter ∧
      shorter.followedByEquals? = some symbol) := by
  cases symbol with
  | equal => exact .inr ⟨assign, 0x3d, by decide, rfl, rfl⟩
  | notEqual => exact .inr ⟨bang, 0x21, by decide, rfl, rfl⟩
  | _ => exact .inl ⟨_, rfl, rfl⟩

end Symbol

namespace Token

/-- Whether a byte directly behind the literal of a token makes it longer. -/
def extendedBy (token : Token) (byte : UInt8) : Bool :=
  match token.kind with
  | .ident | .keyword _ => Byte.isLetter byte
  | .int => Byte.isDigit byte
  | .symbol s => s.followedByEquals?.isSome && Char.ofUInt8 byte == '='
  | .illegal | .eof => false

/-- A break is chosen for all kinds at once. A single kind has more bytes that do not
extend it. -/
theorem extendedBy_of_isBreak {byte : UInt8} (h : Byte.isBreak byte = true) (token : Token) :
    token.extendedBy byte = false := by
  simp only [Byte.isBreak, Bool.and_eq_true, Bool.not_eq_true', bne_iff_ne] at h
  obtain ⟨⟨hLetter, hDigit⟩, hEquals⟩ := h
  unfold extendedBy
  split <;> simp [hLetter, hDigit, hEquals]

end Token

namespace Lexeme

/-- A run takes all bytes of its class and stops at the first of another. -/
theorem run_of_all {inClass : UInt8 → Bool} (token : String → Token) (first : UInt8)
    {tail rest : List UInt8} (hTail : ∀ byte ∈ tail, inClass byte = true)
    (hRest : ∀ byte ∈ rest.head?, inClass byte = false) :
    run inClass token first (tail ++ rest) =
      ⟨[], first :: tail, token (Text.ofCodePoints (first :: tail)), rest⟩ := by
  have hStop : rest.takeWhile inClass = [] ∧ rest.dropWhile inClass = rest := by
    cases rest with
    | nil => exact ⟨rfl, rfl⟩
    | cons byte rest =>
        have hByte := hRest byte rfl
        exact ⟨List.takeWhile_cons_of_neg (by simp [hByte]),
          List.dropWhile_cons_of_neg (by simp [hByte])⟩
  simp only [run, List.takeWhile_append_of_pos hTail, List.dropWhile_append_of_pos hTail,
    hStop.1, hStop.2, List.append_nil]

/-- A byte of another class ends the run, so it is left over with all that is behind
it. -/
theorem run_append (inClass : UInt8 → Bool) (token : String → Token) (first : UInt8)
    {before rest : List UInt8} {byte : UInt8} (hByte : inClass byte = false) :
    run inClass token first (before ++ byte :: rest) =
      { run inClass token first before with
        rest := (run inClass token first before).rest ++ byte :: rest } := by
  have hTake : (before ++ byte :: rest).takeWhile inClass = before.takeWhile inClass := by
    rw [List.takeWhile_append, List.takeWhile_cons_of_neg (by simp [hByte])]
    split
    · next hAll => rw [List.append_nil, (List.takeWhile_prefix _).eq_of_length hAll]
    · rfl
  have hDrop : (before ++ byte :: rest).dropWhile inClass =
      before.dropWhile inClass ++ byte :: rest := by
    rw [List.dropWhile_append, List.dropWhile_cons_of_neg (by simp [hByte])]
    split
    · next hNil => rw [List.isEmpty_iff.mp hNil, List.nil_append]
    · rfl
  simp only [run, hTake, hDrop]

/-- An equals sign is the only byte that a symbol takes in; any other is left over. -/
theorem ofSymbol_append (symbol : Symbol) (first : UInt8)
    {before rest : List UInt8} {byte : UInt8} (hByte : Char.ofUInt8 byte ≠ '=') :
    ofSymbol symbol first (before ++ byte :: rest) =
      { ofSymbol symbol first before with
        rest := (ofSymbol symbol first before).rest ++ byte :: rest } := by
  cases before with
  | nil =>
      simp only [ofSymbol, List.nil_append, if_neg hByte]
      split <;> rfl
  | cons second before =>
      simp only [ofSymbol, List.cons_append]
      repeat' split
      all_goals rfl

/-- The shorter symbol is read where the next byte does not complete a longer one, also at
the end of the input. -/
theorem ofSymbol_alone {symbol : Symbol} (first : UInt8) {rest : List UInt8}
    (hRest : ∀ byte ∈ rest.head?, (Token.ofSymbol symbol).extendedBy byte = false) :
    ofSymbol symbol first rest = ⟨[], [first], .ofSymbol symbol, rest⟩ := by
  cases rest with
  | nil => rfl
  | cons second rest =>
      have hSecond := hRest second rfl
      simp only [Token.extendedBy, Token.ofSymbol] at hSecond
      simp only [ofSymbol]
      split
      · rfl
      · next longer hLonger => rw [if_neg (by simpa [hLonger] using hSecond)]

/-- The longer symbol is read in preference, whatever is behind the equals sign. -/
theorem ofSymbol_equals {symbol longer : Symbol} (first : UInt8)
    (hLonger : symbol.followedByEquals? = some longer) (rest : List UInt8) :
    ofSymbol symbol first (0x3d :: rest) = ⟨[], [first, 0x3d], .ofSymbol longer, rest⟩ := by
  simp only [ofSymbol, hLonger]
  rfl

/-- What starts with the byte of a symbol is read as a symbol, with none of the other
branches taken. -/
theorem start_of_ofChar? {symbol : Symbol} {first : UInt8}
    (hFirst : Symbol.ofChar? (Char.ofUInt8 first) = some symbol) (rest : List UInt8) :
    start first rest = ofSymbol symbol first rest := by
  obtain ⟨hNul, -, hLetter, hDigit⟩ := Byte.of_ofChar? hFirst
  simp only [start, hNul, hLetter, hDigit, hFirst, if_false, Bool.false_eq_true]

/-- What is read before a byte that extends no token does not depend on it,
nor on anything behind it. -/
theorem start_append_break (first : UInt8) {before rest : List UInt8} {byte : UInt8}
    (hBreak : Byte.isBreak byte = true) :
    start first (before ++ byte :: rest) =
      { start first before with rest := (start first before).rest ++ byte :: rest } := by
  simp only [Byte.isBreak, Bool.and_eq_true, Bool.not_eq_true', bne_iff_ne] at hBreak
  obtain ⟨⟨hLetter, hDigit⟩, hEquals⟩ := hBreak
  unfold start
  split_ifs with hNul hFirstLetter hFirstDigit
  · rfl
  · exact run_append Byte.isLetter .ofWord first hLetter
  · exact run_append Byte.isDigit (⟨.int, ·⟩) first hDigit
  · split
    · exact ofSymbol_append _ first hEquals
    · rfl

end Lexeme

namespace Lexer

open Byte (Breaks)

/-- Blanks apart, a stream starts with the token that starts at its first byte. -/
theorem stream_of_dropWhile_eq_cons {bytes rest : List UInt8} {first : UInt8}
    (h : bytes.dropWhile Byte.isBlank = first :: rest) :
    stream bytes = (Lexeme.start first rest).token :: stream (Lexeme.start first rest).rest := by
  have hRead : Lexeme.read? bytes =
      some { Lexeme.start first rest with gap := bytes.takeWhile Byte.isBlank } := by
    rw [Lexeme.read?, h]
  rw [stream_of_read?_eq_some hRead]

/-- Input of blanks alone is at its end; no token stands for the blanks. -/
theorem stream_of_dropWhile_eq_nil {bytes : List UInt8} (h : bytes.dropWhile Byte.isBlank = []) :
    stream bytes = [] := by
  apply stream_of_read?_eq_none
  rw [Lexeme.read?, h]

theorem stream_nil : stream [] = [] := stream_of_dropWhile_eq_nil rfl

theorem stream_cons {first : UInt8} (hBlank : Byte.isBlank first = false) (rest : List UInt8) :
    stream (first :: rest) =
      (Lexeme.start first rest).token :: stream (Lexeme.start first rest).rest :=
  stream_of_dropWhile_eq_cons (List.dropWhile_cons_of_neg (by simp [hBlank]))

/-- Blanks hold no token. -/
theorem stream_blanks_append {blanks : List UInt8} (hBlanks : blanks.all Byte.isBlank = true)
    (bytes : List UInt8) : stream (blanks ++ bytes) = stream bytes := by
  have hDrop : (blanks ++ bytes).dropWhile Byte.isBlank = bytes.dropWhile Byte.isBlank :=
    List.dropWhile_append_of_pos (List.all_eq_true.mp hBlanks)
  cases hBytes : bytes.dropWhile Byte.isBlank with
  | nil => rw [stream_of_dropWhile_eq_nil hBytes, stream_of_dropWhile_eq_nil (hDrop.trans hBytes)]
  | cons first rest =>
      rw [stream_of_dropWhile_eq_cons hBytes, stream_of_dropWhile_eq_cons (hDrop.trans hBytes)]

/-- A byte that extends no token separates what is before it from the rest. -/
theorem stream_append_break (before : List UInt8) {byte : UInt8}
    (hBreak : Byte.isBreak byte = true) (rest : List UInt8) :
    stream (before ++ byte :: rest) = stream before ++ stream (byte :: rest) := by
  induction hLength : before.length using Nat.strongRecOn generalizing before with
  | _ length ih =>
      cases hBefore : before.dropWhile Byte.isBlank with
      | nil =>
          rw [stream_of_dropWhile_eq_nil hBefore, List.nil_append]
          have hBlanks := List.dropWhile_eq_nil_iff.mp hBefore
          exact stream_blanks_append (List.all_eq_true.mpr hBlanks) _
      | cons first tail =>
          have hDrop : (before ++ byte :: rest).dropWhile Byte.isBlank =
              first :: (tail ++ byte :: rest) := by
            rw [List.dropWhile_append, hBefore]
            rfl
          have hShorter : (Lexeme.start first tail).rest.length < length := by
            have hTail := congrArg List.length (Lexeme.start_text_append_rest first tail)
            have hText := List.length_pos_iff.mpr (Lexeme.start_text_ne_nil first tail)
            have hSuffix := (List.dropWhile_suffix (l := before) Byte.isBlank).length_le
            simp only [hBefore, List.length_append, List.length_cons] at hTail hSuffix
            omega
          rw [stream_of_dropWhile_eq_cons hDrop, stream_of_dropWhile_eq_cons hBefore,
            Lexeme.start_append_break first hBreak, ih _ hShorter _ rfl, List.cons_append]

/-- A NUL byte is an end of input, and separates what is before it from the rest. -/
theorem stream_append_zero (before rest : List UInt8) :
    stream (before ++ 0 :: rest) = stream before ++ .eof :: stream rest := by
  have hBreak : Byte.isBreak 0 = true := by decide
  have hNul : stream (0 :: rest) = .eof :: stream rest := stream_cons (by decide) rest
  rw [stream_append_break before hBreak, hNul]

/-- A NUL character is a NUL byte, and no other character has one in it. The text behind
it is read as if it stood alone. -/
theorem stream_append_nul (before after : String) :
    stream (Text.bytes (before ++ "\x00" ++ after)) =
      stream (Text.bytes before) ++ .eof :: stream (Text.bytes after) := by
  rw [Text.bytes_append, Text.bytes_append, List.append_assoc, ← stream_append_zero]
  rfl

/-- Symbols are read from their own spelling, unless the byte behind it makes
a longer symbol. -/
theorem stream_symbol_append (symbol : Symbol) {rest : List UInt8}
    (hRest : ∀ byte ∈ rest.head?, (Token.ofSymbol symbol).extendedBy byte = false) :
    stream (Text.bytes symbol.spelling ++ rest) = .ofSymbol symbol :: stream rest := by
  rcases symbol.spelling_bytes with
    ⟨first, hBytes, hFirst⟩ | ⟨shorter, first, hBytes, hFirst, hLonger⟩
  · obtain ⟨-, hBlank, -, -⟩ := Byte.of_ofChar? hFirst
    rw [hBytes, List.singleton_append, stream_cons hBlank,
      Lexeme.start_of_ofChar? hFirst, Lexeme.ofSymbol_alone first hRest]
  · obtain ⟨-, hBlank, -, -⟩ := Byte.of_ofChar? hFirst
    rw [hBytes, List.cons_append, List.singleton_append, stream_cons hBlank,
      Lexeme.start_of_ofChar? hFirst, Lexeme.ofSymbol_equals first hLonger]

/-- A word is read whole unless a letter follows. A digit may follow directly, because no
word holds digits. -/
theorem stream_word_append {word : String} (hWord : Text.IsWord word) {rest : List UInt8}
    (hRest : ∀ byte ∈ rest.head?, Byte.isLetter byte = false) :
    stream (Text.bytes word ++ rest) = .ofWord word :: stream rest := by
  obtain ⟨first, tail, hBytes⟩ := List.exists_cons_of_ne_nil (Text.bytes_ne_nil hWord.1)
  have hLetters : ∀ byte ∈ first :: tail, Byte.isLetter byte = true := by
    intro byte hByte
    exact hWord.isLetter_of_mem (hBytes ▸ hByte)
  obtain ⟨hNul, hBlank⟩ := Byte.of_isLetter (hLetters first List.mem_cons_self)
  have hStart : Lexeme.start first (tail ++ rest) =
      ⟨[], first :: tail, .ofWord (Text.ofCodePoints (first :: tail)), rest⟩ := by
    rw [Lexeme.start, if_neg hNul, if_pos (hLetters first List.mem_cons_self)]
    exact Lexeme.run_of_all .ofWord first
      (fun byte hByte => hLetters byte (List.mem_cons_of_mem _ hByte)) hRest
  rw [hBytes, List.cons_append, stream_cons hBlank, hStart, ← hBytes,
    Text.ofCodePoints_bytes hWord.isAscii]

/-- A numeral is read whole unless a digit follows. A letter may follow directly. -/
theorem stream_numeral_append {numeral : String} (hNumeral : Text.IsNumeral numeral)
    {rest : List UInt8} (hRest : ∀ byte ∈ rest.head?, Byte.isDigit byte = false) :
    stream (Text.bytes numeral ++ rest) = ⟨.int, numeral⟩ :: stream rest := by
  obtain ⟨first, tail, hBytes⟩ := List.exists_cons_of_ne_nil (Text.bytes_ne_nil hNumeral.1)
  have hDigits : ∀ byte ∈ first :: tail, Byte.isDigit byte = true := by
    intro byte hByte
    exact hNumeral.isDigit_of_mem (hBytes ▸ hByte)
  have hFirst := hDigits first List.mem_cons_self
  obtain ⟨hNul, hBlank, hLetter⟩ := Byte.of_isDigit hFirst
  have hStart : Lexeme.start first (tail ++ rest) =
      ⟨[], first :: tail, ⟨.int, Text.ofCodePoints (first :: tail)⟩, rest⟩ := by
    rw [Lexeme.start, if_neg hNul, if_neg (by simp [hLetter]), if_pos hFirst]
    exact Lexeme.run_of_all (⟨.int, ·⟩) first
      (fun byte hByte => hDigits byte (List.mem_cons_of_mem _ hByte)) hRest
  rw [hBytes, List.cons_append, stream_cons hBlank, hStart, ← hBytes,
    Text.ofCodePoints_bytes hNumeral.isAscii]

theorem stream_name_append {word : String} (hWord : Text.IsName word) {rest : List UInt8}
    (hRest : Breaks rest) :
    stream (Text.bytes word ++ rest) = ⟨.ident, word⟩ :: stream rest := by
  have hToken : Token.ofWord word = ⟨.ident, word⟩ :=
    @Token.Spelled.ofWord_literal ⟨.ident, word⟩ hWord (.inl rfl)
  rw [← hToken]
  exact stream_word_append hWord.1 fun byte hByte =>
    Token.extendedBy_of_isBreak (hRest byte hByte) ⟨.ident, word⟩

theorem stream_keyword_append (keyword : Keyword) {rest : List UInt8} (hRest : Breaks rest) :
    stream (Text.bytes keyword.spelling ++ rest) = .ofKeyword keyword :: stream rest := by
  have hToken : Token.ofWord keyword.spelling = .ofKeyword keyword :=
    (Token.spelled_ofKeyword keyword).ofWord_literal (.inr ⟨keyword, rfl⟩)
  have hWord : Text.IsWord keyword.spelling := by
    cases keyword <;> decide
  rw [← hToken]
  exact stream_word_append hWord fun byte hByte =>
    Token.extendedBy_of_isBreak (hRest byte hByte) (.ofKeyword keyword)

/-- A symbol that no byte makes longer is read from its spelling before anything. -/
theorem stream_spelling_append {symbol : Symbol} (hAlone : symbol.followedByEquals? = none)
    (rest : List UInt8) :
    stream (Text.bytes symbol.spelling ++ rest) = .ofSymbol symbol :: stream rest :=
  stream_symbol_append symbol fun byte _ => by simp [Token.extendedBy, Token.ofSymbol, hAlone]

theorem stream_open_append (rest : List UInt8) :
    stream (Text.bytes "(" ++ rest) = .ofSymbol .openParen :: stream rest :=
  @stream_spelling_append .openParen rfl rest

theorem stream_close_append (rest : List UInt8) :
    stream (Text.bytes ")" ++ rest) = .ofSymbol .closeParen :: stream rest :=
  @stream_spelling_append .closeParen rfl rest

theorem stream_semicolon_append (rest : List UInt8) :
    stream (Text.bytes ";" ++ rest) = .ofSymbol .semicolon :: stream rest :=
  @stream_spelling_append .semicolon rfl rest

/-- The space and the newline are the only blanks in canonical text. -/
theorem stream_space_append (rest : List UInt8) :
    stream (Text.bytes " " ++ rest) = stream rest :=
  stream_blanks_append rfl rest

theorem stream_newline_append (rest : List UInt8) :
    stream (Text.bytes "\n" ++ rest) = stream rest :=
  stream_blanks_append rfl rest

end Lexer

end LetLang
