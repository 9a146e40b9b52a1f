import LetLang.Program
import LetLang.Expr.Reading

/-! Attempts: reading one statement from the front of a token list. A binding
without its name or its `=` is abandoned where it stands; any other failure
is one of the value, and the statement is kept without it. Every attempt
passes over its first token, so reading statements one after another ends. -/
namespace LetLang

/-- What comes of reading one statement. -/
inductive Attempt where
  | complete (statement : Statement)
  | incomplete (statement : Statement) (cause : Diagnostic)
  | abandoned (cause : Diagnostic)
deriving DecidableEq

namespace Attempt

/-- The statement that enters the program, if any. -/
def statement? : Attempt → Option Statement
  | complete statement => some statement
  | incomplete statement _ => some statement
  | abandoned _ => none

def diagnostic? : Attempt → Option Diagnostic
  | complete _ => none
  | incomplete _ cause => some cause
  | abandoned cause => some cause

/-- A statement may end with one semicolon. -/
def dropSemicolon : List Token → List Token
  | [] => []
  | token :: rest => if token.kind = .symbol .semicolon then rest else token :: rest

/-- Finish a statement with the value read for it, found or failed. -/
def finish (statement : Option Expr → Statement) : Reading Expr → Attempt × List Token
  | .found value rest => (complete (statement (some value)), dropSemicolon rest)
  | .failed cause rest => (incomplete (statement none) cause, dropSemicolon rest)

/-- Read a name, `=` and a value behind the keyword of a binding. -/
def readBinding (keyword : Token) (tokens : List Token) : Attempt × List Token :=
  match Reading.expect .ident tokens with
  | .failed cause rest => (abandoned cause, rest)
  | .found name behind =>
      match Reading.expect (.symbol .assign) behind with
      | .failed cause rest => (abandoned cause, rest)
      | .found _ rest =>
          finish (.binding keyword (.ofToken name)) (Expr.read Expr.nestingLimit .lowest rest)

/-- Read the statement that starts with `first`, and say what is left. -/
def read (first : Token) (tokens : List Token) : Attempt × List Token :=
  match first.kind with
  | .keyword .letWord => readBinding first tokens
  | .keyword .returnWord =>
      finish (.result first) (Expr.read Expr.nestingLimit .lowest tokens)
  | _ => finish (.expression first) (Expr.read Expr.nestingLimit .lowest (first :: tokens))

theorem dropSemicolon_suffix (tokens : List Token) : dropSemicolon tokens <:+ tokens := by
  cases tokens with
  | nil => exact List.suffix_rfl
  | cons token rest =>
      simp only [dropSemicolon]
      split
      · exact List.suffix_cons token rest
      · exact List.suffix_rfl

/-- Finishing a statement takes its semicolon, if one comes next, and nothing else of what
the value left. -/
theorem finish_suffix (statement : Option Expr → Statement) (reading : Reading Expr) :
    (finish statement reading).2 <:+ reading.rest := by
  cases reading <;> exact dropSemicolon_suffix _

/-- A binding leaves an end of the tokens behind its keyword, whether it is read whole,
abandoned or left without a value. It may leave all of them. -/
theorem readBinding_suffix (keyword : Token) (tokens : List Token) :
    (readBinding keyword tokens).2 <:+ tokens := by
  have hName := Reading.rest_expect_suffix .ident tokens
  unfold readBinding
  split
  · next cause rest h => simpa [h] using hName
  · next name behind h =>
      have hAssign := Reading.rest_expect_suffix (.symbol .assign) behind
      have hBehind : behind <:+ tokens := by simpa [h] using hName
      refine List.IsSuffix.trans ?_ hBehind
      split
      · next cause rest h => simpa [h] using hAssign
      · next assign rest h =>
          refine List.IsSuffix.trans ?_ (by simpa [h] using hAssign)
          exact ((finish_suffix _ _).trans (Expr.rest_read_suffix _ _ rest)).trans
            (List.tail_suffix rest)

/-- An attempt passes over its first token, and otherwise leaves the tokens
as they were. -/
theorem read_suffix (first : Token) (tokens : List Token) :
    (read first tokens).2 <:+ tokens := by
  unfold read
  split
  · exact readBinding_suffix first tokens
  · exact ((finish_suffix _ _).trans (Expr.rest_read_suffix _ _ tokens)).trans
      (List.tail_suffix tokens)
  · exact (finish_suffix _ _).trans (Expr.rest_read_suffix _ _ (first :: tokens))

/-- Read statements until one would start at an end of input. An end of input
inside a statement does not stop the reading. -/
def readAll : List Token → List Attempt
  | [] => []
  | first :: tokens =>
      if first.kind = .eof then []
      else (read first tokens).1 :: readAll (read first tokens).2
termination_by tokens => tokens.length
decreasing_by
  have hLength := (read_suffix first tokens).length_le
  simp only [List.length_cons]
  omega

end Attempt

end LetLang
