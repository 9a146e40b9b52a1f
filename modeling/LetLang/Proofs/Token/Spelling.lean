import Mathlib.Data.List.TakeWhile
import Mathlib.Tactic.SplitIfs
import LetLang.Token.Lexer

/-! Spelling. The literal of a token is a text of the token's kind: a symbol
or keyword has its one spelling, a word that is no keyword names an identifier,
and an illegal byte stands for itself. The lexer delivers no other tokens, so
the kind decides the literal wherever a kind has only one. -/
namespace LetLang

namespace Text

/-- One or more ASCII letters and underscores. -/
def IsWord (text : String) : Prop :=
  text.toList ≠ [] ∧
    ∀ character ∈ text.toList, character.isAlpha = true ∨ character = '_'

/-- A word that names an identifier. -/
def IsName (text : String) : Prop := IsWord text ∧ Keyword.ofWord? text = none

/-- One or more decimal digits. -/
def IsNumeral (text : String) : Prop :=
  text.toList ≠ [] ∧ ∀ character ∈ text.toList, character.isDigit = true

-- The characters of the text are tried, not all that there are.
instance (text : String) : Decidable (IsWord text) :=
  @instDecidableAnd _ _ inferInstance (List.decidableBAll _ text.toList)

instance (text : String) : Decidable (IsName text) := inferInstanceAs (Decidable (_ ∧ _))

instance (text : String) : Decidable (IsNumeral text) :=
  @instDecidableAnd _ _ inferInstance (List.decidableBAll _ text.toList)

/-- Neither a space nor a control character that comes before it. -/
def IsGraphic (text : String) : Prop := ∀ character ∈ text.toList, ' '.toNat < character.toNat

instance (text : String) : Decidable (IsGraphic text) := List.decidableBAll _ text.toList

/-- Spaces and control characters, escape and line feed among them, come no later than the
space. -/
theorem IsGraphic.notMem {text : String} (h : IsGraphic text) {character : Char}
    (hCharacter : character.toNat ≤ ' '.toNat) : character ∉ text.toList :=
  fun hMem => Nat.not_lt_of_le hCharacter (h character hMem)

theorem IsWord.isGraphic {text : String} (h : IsWord text) : IsGraphic text := by
  intro character hMem
  rcases h.2 character hMem with hAlpha | rfl
  · rcases Bool.or_eq_true_iff.mp hAlpha with hUpper | hLower
    · have hFirst : character.val ≥ 'A'.val := (of_decide_eq_true hUpper).1
      exact Nat.lt_of_lt_of_le (by decide) (UInt32.le_iff_toNat_le.mp hFirst)
    · have hFirst : character.val ≥ 'a'.val :=
        of_decide_eq_true (Bool.and_eq_true_iff.mp hLower).1
      exact Nat.lt_of_lt_of_le (by decide) (UInt32.le_iff_toNat_le.mp hFirst)
  · decide

theorem IsNumeral.isGraphic {text : String} (h : IsNumeral text) : IsGraphic text := by
  intro character hMem
  have hFirst : character.val ≥ '0'.val :=
    of_decide_eq_true (Bool.and_eq_true_iff.mp (h.2 character hMem)).1
  exact Nat.lt_of_lt_of_le (by decide) (UInt32.le_iff_toNat_le.mp hFirst)

/-- One character for each byte, as the lexer makes the literal of a word. -/
theorem isWord_ofCodePoints {bytes : List UInt8} (hBytes : bytes ≠ [])
    (hLetters : ∀ byte ∈ bytes, Byte.isLetter byte = true) : IsWord (ofCodePoints bytes) := by
  rw [IsWord, toList_ofCodePoints]
  refine ⟨by simpa using hBytes, ?_⟩
  intro character hCharacter
  obtain ⟨byte, hByte, rfl⟩ := List.mem_map.mp hCharacter
  simpa [Byte.isLetter] using hLetters byte hByte

theorem isNumeral_ofCodePoints {bytes : List UInt8} (hBytes : bytes ≠ [])
    (hDigits : ∀ byte ∈ bytes, Byte.isDigit byte = true) : IsNumeral (ofCodePoints bytes) := by
  rw [IsNumeral, toList_ofCodePoints]
  refine ⟨by simpa using hBytes, ?_⟩
  intro character hCharacter
  obtain ⟨byte, hByte, rfl⟩ := List.mem_map.mp hCharacter
  exact hDigits byte hByte

end Text

namespace Byte

/-- A byte that is no blank and starts no token: not NUL, no letter, no digit
and no symbol. -/
def isStray (byte : UInt8) : Bool :=
  byte != 0 && !isBlank byte && !isLetter byte && !isDigit byte &&
    (Symbol.ofChar? (Char.ofUInt8 byte)).isNone

end Byte

namespace Token

/-- The literal is a text of the kind. -/
def Spelled (token : Token) : Prop :=
  match token.kind with
  | .illegal => ∃ byte, Byte.isStray byte = true ∧ token.literal = Text.ofCodePoints [byte]
  | .eof => token.literal = ""
  | .ident => Text.IsName token.literal
  | .int => Text.IsNumeral token.literal
  | .symbol s => token.literal = s.spelling
  | .keyword k => token.literal = k.spelling

/-- The token of a keyword. -/
def ofKeyword (keyword : Keyword) : Token := ⟨.keyword keyword, keyword.spelling⟩

@[simp] theorem kind_ofSymbol (symbol : Symbol) : (ofSymbol symbol).kind = .symbol symbol := rfl

@[simp] theorem kind_ofKeyword (keyword : Keyword) :
    (ofKeyword keyword).kind = .keyword keyword := rfl

theorem Spelled.eq_ofSymbol {token : Token} {symbol : Symbol} (hSpelled : token.Spelled)
    (hKind : token.kind = .symbol symbol) : token = .ofSymbol symbol := by
  obtain ⟨kind, literal⟩ := token
  obtain rfl : kind = .symbol symbol := hKind
  obtain rfl : literal = symbol.spelling := hSpelled
  rfl

theorem Spelled.eq_ofKeyword {token : Token} {keyword : Keyword} (hSpelled : token.Spelled)
    (hKind : token.kind = .keyword keyword) : token = .ofKeyword keyword := by
  obtain ⟨kind, literal⟩ := token
  obtain rfl : kind = .keyword keyword := hKind
  obtain rfl : literal = keyword.spelling := hSpelled
  rfl

/-- Neither a NUL nor the end of the source leaves a literal. -/
theorem Spelled.eq_eof {token : Token} (hSpelled : token.Spelled)
    (hKind : token.kind = .eof) : token = .eof := by
  obtain ⟨kind, literal⟩ := token
  obtain rfl : kind = .eof := hKind
  obtain rfl : literal = "" := hSpelled
  rfl

/-- Only an illegal byte can be a space or a control character. -/
theorem Spelled.isGraphic {token : Token} (hSpelled : token.Spelled)
    (hKind : token.kind ≠ .illegal) : Text.IsGraphic token.literal := by
  obtain ⟨kind, literal⟩ := token
  cases kind with
  | illegal => exact absurd rfl hKind
  | eof =>
      obtain rfl : literal = "" := hSpelled
      decide
  | ident => exact Text.IsWord.isGraphic hSpelled.1
  | int => exact Text.IsNumeral.isGraphic hSpelled
  | symbol symbol =>
      obtain rfl : literal = symbol.spelling := hSpelled
      cases symbol <;> decide
  | keyword keyword =>
      obtain rfl : literal = keyword.spelling := hSpelled
      cases keyword <;> decide

theorem spelled_ofSymbol (symbol : Symbol) : (ofSymbol symbol).Spelled := rfl

theorem spelled_ofKeyword (keyword : Keyword) : (ofKeyword keyword).Spelled := rfl

theorem spelled_ofWord {word : String} (hWord : Text.IsWord word) : (ofWord word).Spelled := by
  unfold ofWord Kind.ofWord
  cases hKeyword : Keyword.ofWord? word with
  | none => exact ⟨hWord, hKeyword⟩
  | some keyword => exact (Keyword.spelling_of_ofWord? hKeyword).symm

/-- A spelled word is the token that its literal reads as. -/
theorem Spelled.ofWord_literal {token : Token} (hSpelled : token.Spelled)
    (hKind : token.kind = .ident ∨ ∃ keyword, token.kind = .keyword keyword) :
    ofWord token.literal = token := by
  obtain ⟨kind, literal⟩ := token
  rcases hKind with hKind | ⟨keyword, hKind⟩
  · obtain rfl : kind = .ident := hKind
    simp [ofWord, Kind.ofWord, hSpelled.2]
  · obtain rfl : kind = .keyword keyword := hKind
    obtain rfl : literal = keyword.spelling := hSpelled
    simp [ofWord, Kind.ofWord, Keyword.ofWord?_spelling]

end Token

namespace Lexeme

/-- A symbol that is read, be it the shorter or the longer one, has its spelling as its
literal. -/
theorem ofSymbol_token (symbol : Symbol) (first : UInt8) (rest : List UInt8) :
    ∃ read : Symbol, (ofSymbol symbol first rest).token = .ofSymbol read := by
  unfold ofSymbol
  repeat' split
  all_goals exact ⟨_, rfl⟩

/-- What starts at a byte is spelled, in each branch of the lexer. A byte that all of them
turn down is a stray one. -/
theorem spelled_start {first : UInt8} (hBlank : Byte.isBlank first = false) (rest : List UInt8) :
    (start first rest).token.Spelled := by
  unfold start
  split_ifs with hNul hLetter hDigit
  · exact rfl
  · refine Token.spelled_ofWord (Text.isWord_ofCodePoints (by simp) ?_)
    intro byte hByte
    rcases List.mem_cons.mp hByte with rfl | hByte
    · exact hLetter
    · exact List.mem_takeWhile_imp hByte
  · refine Text.isNumeral_ofCodePoints (by simp) ?_
    intro byte hByte
    rcases List.mem_cons.mp hByte with rfl | hByte
    · exact hDigit
    · exact List.mem_takeWhile_imp hByte
  · split
    · next symbol hSymbol =>
        obtain ⟨read, hRead⟩ := ofSymbol_token symbol first rest
        rw [hRead]
        exact Token.spelled_ofSymbol read
    · next hSymbol => exact ⟨first, by simp [Byte.isStray, *], rfl⟩

/-- Blanks in front of a token are not part of its literal. -/
theorem spelled_read? {bytes : List UInt8} {lexeme : Lexeme} (h : read? bytes = some lexeme) :
    lexeme.token.Spelled := by
  unfold read? at h
  split at h
  · simp at h
  · next first rest hRest =>
      obtain rfl := Option.some.inj h
      have hFirst := List.head?_dropWhile_not Byte.isBlank bytes
      rw [hRest] at hFirst
      exact spelled_start (by simpa using hFirst) rest

/-- Only a NUL byte is read as an end of input. -/
theorem start_eq_eof {first : UInt8} {rest : List UInt8}
    (h : (start first rest).token.kind = .eof) : first = 0 := by
  unfold start at h
  split_ifs at h with hNul hLetter hDigit
  · exact hNul
  · simp only [run, Token.ofWord, Kind.ofWord] at h
    split at h <;> cases h
  · cases h
  · split at h
    · next symbol hSymbol =>
        obtain ⟨read, hRead⟩ := ofSymbol_token symbol first rest
        rw [hRead] at h
        cases h
    · cases h

/-- The end of the bytes is not read as a token, so an end of input that is read is a
NUL. -/
theorem mem_zero_of_read?_eof {bytes : List UInt8} {lexeme : Lexeme}
    (h : read? bytes = some lexeme) (hKind : lexeme.token.kind = .eof) : 0 ∈ bytes := by
  unfold read? at h
  split at h
  · simp at h
  · next first rest hRest =>
      obtain rfl := Option.some.inj h
      obtain rfl := start_eq_eof hKind
      refine (List.dropWhile_sublist (p := Byte.isBlank)).mem ?_
      rw [hRest]
      exact List.mem_cons_self

end Lexeme

namespace Lexer

/-- All that the lexer delivers is spelled. -/
theorem spelled_of_mem_stream {bytes : List UInt8} {token : Token} (h : token ∈ stream bytes) :
    token.Spelled := by
  fun_induction stream bytes with
  | case1 bytes hRead => simp at h
  | case2 bytes lexeme hRead ih =>
      rcases List.mem_cons.mp h with rfl | hLater
      · exact Lexeme.spelled_read? hRead
      · exact ih hLater

/-- Bytes without a NUL hold no end of input. -/
theorem kind_ne_eof_of_mem_stream {bytes : List UInt8} (hNul : 0 ∉ bytes) {token : Token}
    (h : token ∈ stream bytes) : token.kind ≠ .eof := by
  fun_induction stream bytes with
  | case1 bytes hRead => simp at h
  | case2 bytes lexeme hRead ih =>
      have hBytes := Lexeme.gap_append_text_append_rest hRead
      rcases List.mem_cons.mp h with rfl | hLater
      · exact fun hKind => hNul (Lexeme.mem_zero_of_read?_eof hRead hKind)
      · refine ih (fun hMem => hNul ?_) hLater
        rw [← hBytes]
        exact List.mem_append_right _ hMem

end Lexer

end LetLang
