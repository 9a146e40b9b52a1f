import LetLang.Token
import LetLang.Diagnostic

/-! Readings: what comes of reading something from the front of a token list.
A reading either finds a value or fails for exactly one cause. In both cases
it says which tokens are left, because reading goes on behind a failure.
Past the end of a token list there are only end-of-input tokens. -/
namespace LetLang

inductive Reading (α : Type) where
  | found (value : α) (rest : List Token)
  | failed (cause : Diagnostic) (rest : List Token)

namespace Reading

variable {α β : Type}

/-- The tokens left to read. -/
def rest : Reading α → List Token
  | found _ rest => rest
  | failed _ rest => rest

@[simp] theorem rest_found (value : α) (tokens : List Token) :
    (found value tokens).rest = tokens := rfl

@[simp] theorem rest_failed (cause : Diagnostic) (tokens : List Token) :
    (failed cause tokens : Reading α).rest = tokens := rfl

/-- Continue behind a value that was found. A failure is passed on as it is:
same cause, same tokens left. -/
def andThen (reading : Reading α) (continuation : α → List Token → Reading β) : Reading β :=
  match reading with
  | found value rest => continuation value rest
  | failed cause rest => failed cause rest

@[simp] theorem andThen_found (value : α) (rest : List Token)
    (continuation : α → List Token → Reading β) :
    (found value rest).andThen continuation = continuation value rest := rfl

@[simp] theorem andThen_failed (cause : Diagnostic) (rest : List Token)
    (continuation : α → List Token → Reading β) :
    (failed cause rest).andThen continuation = failed cause rest := rfl

def map (f : α → β) (reading : Reading α) : Reading β :=
  reading.andThen fun value rest => found (f value) rest

@[simp] theorem rest_map (f : α → β) (reading : Reading α) : (reading.map f).rest = reading.rest := by
  cases reading <;> rfl

/-- If a reading leaves an end of some tokens, and whatever follows it leaves
an end of what it was given, then both together leave an end of those tokens. -/
theorem rest_andThen_suffix {reading : Reading α} {continuation : α → List Token → Reading β}
    {tokens : List Token} (hReading : reading.rest <:+ tokens)
    (hContinuation : ∀ value rest, (continuation value rest).rest <:+ rest) :
    (reading.andThen continuation).rest <:+ tokens := by
  cases reading with
  | found value rest => exact (hContinuation value rest).trans hReading
  | failed cause rest => exact hReading

/-- Take one token of the required kind. Any other token stays where it is. -/
def expect (kind : Kind) : List Token → Reading Token
  | [] => failed (.unexpected kind .eof) []
  | token :: rest =>
      if token.kind = kind then found token rest
      else failed (.unexpected kind token.kind) (token :: rest)

theorem rest_expect_suffix (kind : Kind) (tokens : List Token) :
    (expect kind tokens).rest <:+ tokens := by
  cases tokens with
  | nil => exact List.suffix_rfl
  | cons token rest =>
      simp only [expect]
      split
      · exact List.suffix_cons token rest
      · exact List.suffix_rfl

end Reading

end LetLang
