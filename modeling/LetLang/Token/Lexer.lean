import LetLang.Token.Lexeme

/-! The lexer: a cursor over source bytes that delivers one token at a time.
The bytes ahead are all it reads from; the position only counts what is
behind. At the end of the bytes it delivers end-of-input tokens for ever. -/
namespace LetLang

/-- A cursor: how many bytes have been read, and the bytes still ahead. -/
structure Lexer where
  position : Nat
  ahead : List UInt8
deriving DecidableEq

namespace Lexer

def ofBytes (bytes : List UInt8) : Lexer := ⟨0, bytes⟩

def ofString (source : String) : Lexer := ofBytes (Text.bytes source)

/-- Deliver the next token and move past it, together with the blanks before it. -/
def next (lexer : Lexer) : Token × Lexer :=
  match Lexeme.read? lexer.ahead with
  | none => (.eof, ⟨lexer.position + lexer.ahead.length, []⟩)
  | some lexeme =>
      (lexeme.token, ⟨lexer.position + lexeme.gap.length + lexeme.text.length, lexeme.rest⟩)

/-- An end of input may leave the bytes ahead as they are, any other token may not. -/
theorem next_ahead_lt {lexer : Lexer} (h : lexer.next.1.kind ≠ .eof) :
    lexer.next.2.ahead.length < lexer.ahead.length := by
  unfold next at h ⊢
  split
  · next hNone => simp [hNone, Token.eof] at h
  · next hSome => exact Lexeme.rest_length_lt hSome

/-- Deliver tokens up to and including the first end of input, which is the
end of the bytes or a NUL among them. -/
def tokenize (lexer : Lexer) : List Token × Lexer :=
  if lexer.next.1.kind = .eof then ([lexer.next.1], lexer.next.2)
  else
    let later := tokenize lexer.next.2
    (lexer.next.1 :: later.1, later.2)
termination_by lexer.ahead.length
decreasing_by exact next_ahead_lt (by assumption)

/-- Every token that some bytes hold, in order. Ends of input that NUL bytes
make are listed; the one at the end of the bytes is not. -/
def stream (bytes : List UInt8) : List Token :=
  match _h : Lexeme.read? bytes with
  | none => []
  | some lexeme => lexeme.token :: stream lexeme.rest
termination_by bytes.length
decreasing_by exact Lexeme.rest_length_lt (by assumption)

theorem stream_of_read?_eq_none {bytes : List UInt8} (h : Lexeme.read? bytes = none) :
    stream bytes = [] := by
  rw [stream]
  split <;> simp_all

theorem stream_of_read?_eq_some {bytes : List UInt8} {lexeme : Lexeme}
    (h : Lexeme.read? bytes = some lexeme) :
    stream bytes = lexeme.token :: stream lexeme.rest := by
  rw [stream]
  split <;> simp_all

/-- A token takes at least one byte. -/
theorem stream_length_le (bytes : List UInt8) : (stream bytes).length ≤ bytes.length := by
  induction hn : bytes.length using Nat.strongRecOn generalizing bytes with
  | _ n ih =>
      cases h : Lexeme.read? bytes with
      | none => simp [stream_of_read?_eq_none h]
      | some lexeme =>
          have hRest := Lexeme.rest_length_lt h
          have hTail := ih lexeme.rest.length (by omega) lexeme.rest rfl
          simp only [stream_of_read?_eq_some h, List.length_cons]
          omega

end Lexer

end LetLang
