import LetLang.Program.Parser
import LetLang.Proofs.Grammar.Syntax

/-! Parsing step by step. A cursor stands on one token and sees one more; what is
behind these two is not lexed yet. Diagnostics are recorded where they arise. How
deep a value is nested is known to whoever asks for it, and reading ends because
that depth has a limit, and so has the number of folds at one depth. -/
namespace LetLang

structure Cursor where
  current : Token
  ahead : Token
  lexer : Lexer
  diagnostics : List Diagnostic
deriving DecidableEq

namespace Cursor

variable {α β : Type}

/-- What was found, if anything, and where the cursor stands then. -/
structure Outcome (α : Type) where
  found : Option α
  cursor : Cursor
deriving DecidableEq

/-- Go on with what was found. With nothing found there is nothing to do. -/
def Outcome.andThen (outcome : Outcome α) (next : α → Cursor → Outcome β) : Outcome β :=
  match outcome.found with
  | some value => next value outcome.cursor
  | none => ⟨none, outcome.cursor⟩

theorem Outcome.andThen_of_some {outcome : Outcome α} {value : α} (h : outcome.found = some value)
    (next : α → Cursor → Outcome β) : outcome.andThen next = next value outcome.cursor := by
  rw [andThen, h]

/-- A failure is passed on from where it arose, so nothing is passed or recorded behind
it. -/
theorem Outcome.andThen_of_none {outcome : Outcome α} (h : outcome.found = none)
    (next : α → Cursor → Outcome β) : outcome.andThen next = ⟨none, outcome.cursor⟩ := by
  rw [andThen, h]

def advance (cursor : Cursor) : Cursor :=
  { cursor with
    current := cursor.ahead
    ahead := cursor.lexer.next.1
    lexer := cursor.lexer.next.2 }

/-- A cursor on the first token that the lexer delivers. -/
def ofLexer (lexer : Lexer) : Cursor := (advance ⟨.eof, .eof, lexer, []⟩).advance

def ofString (source : String) : Cursor := ofLexer (.ofString source)

def record (cursor : Cursor) (cause : Diagnostic) : Cursor :=
  { cursor with diagnostics := cursor.diagnostics ++ [cause] }

/-- Move to the token ahead if it has the required kind. -/
def expect (cursor : Cursor) (kind : Kind) : Outcome Token :=
  if cursor.ahead.kind = kind then ⟨some cursor.ahead, cursor.advance⟩
  else ⟨none, cursor.record (.unexpected kind cursor.ahead.kind)⟩

/-- Whether a token of this kind takes the tree before it as its left operand. -/
def folds (kind : Kind) : Bool := kind ∈ Symbol.binaryOperators.map Kind.symbol

mutual

/-- Read an expression from the current token on, and stop on its last token. -/
def expression (depth : Nat) (floor : Precedence) (cursor : Cursor) : Outcome Expr :=
  if depth ≥ Expr.nestingLimit then ⟨none, cursor.record .tooDeep⟩
  else
    (operand (depth + 1) cursor).andThen fun left cursor =>
      operators (depth + 1) floor 0 left cursor
termination_by (Expr.nestingLimit - depth, 0)

def operand (depth : Nat) (cursor : Cursor) : Outcome Expr :=
  match cursor.current.kind with
  | .ident => ⟨some (.name (.ofToken cursor.current)), cursor⟩
  | .int =>
      match Numeral.value? cursor.current.literal with
      | some value => ⟨some (.integer cursor.current value), cursor⟩
      | none => ⟨none, cursor.record (.badInteger cursor.current.literal)⟩
  | .symbol .bang | .symbol .minus =>
      (expression depth .unary cursor.advance).andThen fun right last =>
        ⟨some (.unary cursor.current cursor.current.literal right), last⟩
  | .symbol .openParen =>
      (expression depth .lowest cursor.advance).andThen fun inner last =>
        (last.expect (.symbol .closeParen)).andThen fun _ last => ⟨some inner, last⟩
  | kind => ⟨none, cursor.record (.noOperand kind)⟩
termination_by (Expr.nestingLimit - depth, 1)

/-- Fold operators that bind tighter than the floor, counting from `count` on. -/
def operators (depth : Nat) (floor : Precedence) (count : Nat) (left : Expr) (cursor : Cursor) :
    Outcome Expr :=
  if cursor.ahead.kind ≠ .symbol .semicolon ∧ floor < Precedence.ofKind cursor.ahead.kind then
    if folds cursor.ahead.kind = false then ⟨some left, cursor⟩
    else if depth + count ≥ Expr.nestingLimit then ⟨none, cursor.record .tooDeep⟩
    else
      (expression depth (Precedence.ofKind cursor.ahead.kind) cursor.advance.advance).andThen
        fun right last =>
          operators depth floor (count + 1)
            (.binary cursor.ahead left cursor.ahead.literal right) last
  else ⟨some left, cursor⟩
termination_by (Expr.nestingLimit - depth, Expr.nestingLimit - (depth + count) + 1)

end

/-- Move to the token ahead if it is a semicolon. -/
def skipSemicolon (cursor : Cursor) : Cursor :=
  if cursor.ahead.kind = .symbol .semicolon then cursor.advance else cursor

/-- Read the value of a statement, and stop on the last token of the statement. -/
def withValue (depth : Nat) (make : Option Expr → Statement) (cursor : Cursor) :
    Outcome Statement :=
  let value := expression depth .lowest cursor
  ⟨some (make value.found), value.cursor.skipSemicolon⟩

def binding (depth : Nat) (cursor : Cursor) : Outcome Statement :=
  (cursor.expect .ident).andThen fun name named =>
    (named.expect (.symbol .assign)).andThen fun _ bound =>
      withValue depth (.binding cursor.current (.ofToken name)) bound.advance

/-- Read the statement that starts at the current token. -/
def statement (depth : Nat) (cursor : Cursor) : Outcome Statement :=
  match cursor.current.kind with
  | .keyword .letWord => binding depth cursor
  | .keyword .returnWord => withValue depth (.result cursor.current) cursor.advance
  | _ => withValue depth (.expression cursor.current) cursor

/-- Statements are read one after another until one would start at an end of input.
Listed is what was found by each. -/
inductive Runs : Cursor → List (Option Statement) → Cursor → Prop where
  | stop {cursor : Cursor} (hEnd : cursor.current.kind = .eof) : Runs cursor [] cursor
  | step {cursor last : Cursor} {outcomes : List (Option Statement)}
      (hMore : cursor.current.kind ≠ .eof)
      (later : Runs (statement 0 cursor).cursor.advance outcomes last) :
      Runs cursor ((statement 0 cursor).found :: outcomes) last

end Cursor

end LetLang
