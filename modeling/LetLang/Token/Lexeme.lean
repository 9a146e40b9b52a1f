import LetLang.Token
import LetLang.Text.Bytes

/-! Lexemes: the stretch of source bytes that one token is read from. Reading
is greedy. Blanks before a token are skipped, a run of letters or digits goes
as far as it can, and `=` or `!` takes a directly following `=` with it.
Nothing else is dropped: gap, text and rest concatenate to the bytes read. -/
namespace LetLang

namespace Byte

/-- Space, tab, line feed and carriage return separate tokens. -/
def isBlank (byte : UInt8) : Bool :=
  byte == 0x20 || byte == 0x09 || byte == 0x0a || byte == 0x0d

/-- Words are made of ASCII letters and underscores, and hold no digits. -/
def isLetter (byte : UInt8) : Bool :=
  (Char.ofUInt8 byte).isAlpha || Char.ofUInt8 byte == '_'

def isDigit (byte : UInt8) : Bool := (Char.ofUInt8 byte).isDigit

end Byte

/-- One token with the bytes around it: the blanks skipped before it, the
bytes it was read from, and the bytes left to read. -/
structure Lexeme where
  gap : List UInt8
  text : List UInt8
  token : Token
  rest : List UInt8

namespace Lexeme

/-- A run of bytes of one class, as long as possible. -/
def run (inClass : UInt8 → Bool) (token : String → Token)
    (first : UInt8) (rest : List UInt8) : Lexeme :=
  let text := first :: rest.takeWhile inClass
  { gap := [], text, token := token (Text.ofCodePoints text), rest := rest.dropWhile inClass }

/-- A symbol, or the longer symbol that it spells with a directly following `=`. -/
def ofSymbol (symbol : Symbol) (first : UInt8) : List UInt8 → Lexeme
  | [] => ⟨[], [first], .ofSymbol symbol, []⟩
  | second :: rest =>
      match symbol.followedByEquals? with
      | none => ⟨[], [first], .ofSymbol symbol, second :: rest⟩
      | some longer =>
          if Char.ofUInt8 second = '=' then ⟨[], [first, second], .ofSymbol longer, rest⟩
          else ⟨[], [first], .ofSymbol symbol, second :: rest⟩

/-- The lexeme that starts at `first`, which is not blank. A NUL byte ends the
input for whoever asked, and is consumed. A byte of no other use is an
illegal token on its own, read as the character with its code point. -/
def start (first : UInt8) (rest : List UInt8) : Lexeme :=
  if first = 0 then ⟨[], [first], .eof, rest⟩
  else if Byte.isLetter first then run Byte.isLetter .ofWord first rest
  else if Byte.isDigit first then run Byte.isDigit (⟨.int, ·⟩) first rest
  else
    match Symbol.ofChar? (Char.ofUInt8 first) with
    | some symbol => ofSymbol symbol first rest
    | none => ⟨[], [first], ⟨.illegal, Text.ofCodePoints [first]⟩, rest⟩

/-- The first lexeme of some bytes, or nothing if all of them are blank. -/
def read? (bytes : List UInt8) : Option Lexeme :=
  match bytes.dropWhile Byte.isBlank with
  | [] => none
  | first :: rest => some { start first rest with gap := bytes.takeWhile Byte.isBlank }

/-- One byte or two are taken, and the rest starts right behind them. -/
theorem ofSymbol_text_append_rest (symbol : Symbol) (first : UInt8) (rest : List UInt8) :
    (ofSymbol symbol first rest).text ++ (ofSymbol symbol first rest).rest = first :: rest := by
  unfold ofSymbol
  repeat' split
  all_goals simp

/-- No branch of the reader skips a byte. -/
theorem start_text_append_rest (first : UInt8) (rest : List UInt8) :
    (start first rest).text ++ (start first rest).rest = first :: rest := by
  unfold start
  repeat' split
  all_goals simp [run, ofSymbol_text_append_rest, List.takeWhile_append_dropWhile]

/-- A lexeme has at least one byte of its own. -/
theorem start_text_ne_nil (first : UInt8) (rest : List UInt8) :
    (start first rest).text ≠ [] := by
  unfold start ofSymbol
  repeat' split
  all_goals simp [run]

/-- Nothing but blanks can be left over at the end. -/
theorem read?_eq_none_iff (bytes : List UInt8) :
    read? bytes = none ↔ ∀ byte ∈ bytes, Byte.isBlank byte = true := by
  have hDrop : bytes.dropWhile Byte.isBlank = [] ↔ ∀ byte ∈ bytes, Byte.isBlank byte = true := by
    induction bytes with
    | nil => simp
    | cons first rest ih => by_cases h : Byte.isBlank first = true <;> simp [h, ih]
  rw [← hDrop]
  unfold read?
  split <;> simp_all

/-- Reading loses no byte: what it skipped, what it took and what it left
are the bytes it was given, in order. -/
theorem gap_append_text_append_rest {bytes : List UInt8} {lexeme : Lexeme}
    (h : read? bytes = some lexeme) : lexeme.gap ++ lexeme.text ++ lexeme.rest = bytes := by
  unfold read? at h
  split at h
  · simp at h
  · next first rest hRest =>
      obtain rfl := Option.some.inj h
      simp only [List.append_assoc, start_text_append_rest, ← hRest,
        List.takeWhile_append_dropWhile]

theorem text_ne_nil {bytes : List UInt8} {lexeme : Lexeme}
    (h : read? bytes = some lexeme) : lexeme.text ≠ [] := by
  unfold read? at h
  split at h
  · simp at h
  · next first rest hRest =>
      obtain rfl := Option.some.inj h
      exact start_text_ne_nil first rest

/-- This is what makes reading one lexeme after another come to an end. -/
theorem rest_length_lt {bytes : List UInt8} {lexeme : Lexeme}
    (h : read? bytes = some lexeme) : lexeme.rest.length < bytes.length := by
  have hText := List.length_pos_iff.mpr (text_ne_nil h)
  have hBytes := congrArg List.length (gap_append_text_append_rest h)
  simp only [List.length_append] at hBytes
  omega

end Lexeme

end LetLang
