import LetLang.Proofs.Cursor
import LetLang.Proofs.Grammar.Acceptance

/-! What a cursor does is what the readings of its tokens say: it finds the value,
records the diagnostic and leaves the tokens of the reading. The levels of nesting
that a reading is given are those that the depth leaves of the limit. -/
namespace LetLang

namespace Reading

variable {α : Type}

def value? : Reading α → Option α
  | found value _ => some value
  | failed _ _ => none

def cause? : Reading α → Option Diagnostic
  | found _ _ => none
  | failed cause _ => some cause

end Reading

namespace Cursor

variable {α β : Type} {cursor : Cursor} {tokens : List Token}

/-- The tokens behind the current one. Past the last of them there are only ends
of input, as many as are asked for. -/
structure Followed (cursor : Cursor) (tokens : List Token) : Prop where
  ahead_eq : cursor.ahead = tokens.headD .eof
  stream_eq : Lexer.stream cursor.lexer.ahead = tokens.tail

/-- The tokens from the current one on. -/
structure Holds (cursor : Cursor) (tokens : List Token) : Prop where
  current_eq : cursor.current = tokens.headD .eof
  followed : cursor.Followed tokens.tail

/-- To advance makes the token ahead the current one, also where it is an end of input
past the last. -/
theorem Followed.advance (h : cursor.Followed tokens) : cursor.advance.Holds tokens where
  current_eq := h.ahead_eq
  followed :=
    { ahead_eq := by
        rw [← h.stream_eq]
        exact Lexer.next_fst cursor.lexer
      stream_eq := by
        rw [← h.stream_eq]
        exact Lexer.stream_next_snd cursor.lexer }

/-- What a cursor has not read yet, the current token included. -/
def unread (cursor : Cursor) : List Token :=
  cursor.current :: cursor.ahead :: Lexer.stream cursor.lexer.ahead

/-- Every cursor is on the tokens that it has not read, so what is proved of tokens holds in
mid-source too. -/
theorem holds_unread (cursor : Cursor) : cursor.Holds cursor.unread := ⟨rfl, rfl, rfl⟩

/-- A cursor that takes over from a lexer is on the tokens that the lexer has not delivered.
Those delivered before are out of its reach. -/
theorem holds_ofLexer (lexer : Lexer) : (ofLexer lexer).Holds (Lexer.stream lexer.ahead) :=
  Followed.advance ⟨Lexer.next_fst lexer, Lexer.stream_next_snd lexer⟩

theorem Followed.record (h : cursor.Followed tokens) (cause : Diagnostic) :
    (cursor.record cause).Followed tokens := ⟨h.ahead_eq, h.stream_eq⟩

/-- What came of a cursor that was at `before` is what a reading says. -/
structure Agrees (before : Cursor) (reading : Reading α) (outcome : Outcome α) : Prop where
  found_eq : outcome.found = reading.value?
  diagnostics_eq : outcome.cursor.diagnostics = before.diagnostics ++ reading.cause?.toList
  followed : outcome.cursor.Followed reading.rest

theorem agrees_found (value : α) {rest : List Token} (h : cursor.Followed rest) :
    Agrees cursor (.found value rest) ⟨some value, cursor⟩ :=
  ⟨rfl, (List.append_nil _).symm, h⟩

/-- A failure finds nothing and records its cause once, behind what was recorded before. -/
theorem agrees_failed (cause : Diagnostic) {rest : List Token} (h : cursor.Followed rest) :
    Agrees cursor (.failed cause rest : Reading α) ⟨none, cursor.record cause⟩ :=
  ⟨rfl, rfl, h.record cause⟩

/-- If two parts agree with two readings, so they do one behind the other. A failure of the
first is passed on and not recorded again. -/
theorem Agrees.andThen {before : Cursor} {reading : Reading α} {outcome : Outcome α}
    {continuation : α → List Token → Reading β} {next : α → Cursor → Outcome β}
    (h : Agrees before reading outcome)
    (hNext : ∀ value rest last, last.Followed rest →
      Agrees last (continuation value rest) (next value last)) :
    Agrees before (reading.andThen continuation) (outcome.andThen next) := by
  obtain ⟨hFound, hDiagnostics, hFollowed⟩ := h
  cases reading with
  | failed cause rest =>
      rw [Outcome.andThen_of_none hFound]
      exact ⟨rfl, hDiagnostics, hFollowed⟩
  | found value rest =>
      rw [Outcome.andThen_of_some hFound]
      obtain ⟨hLastFound, hLast, hRest⟩ := hNext value rest outcome.cursor hFollowed
      refine ⟨hLastFound, ?_, hRest⟩
      rw [hLast, hDiagnostics]
      exact congrArg (· ++ _) (List.append_nil _)

theorem Agrees.map {before : Cursor} {reading : Reading α} {outcome : Outcome α}
    (h : Agrees before reading outcome) (f : α → β) :
    Agrees before (reading.map f) (outcome.andThen fun value last => ⟨some (f value), last⟩) :=
  h.andThen fun value _ _ hFollowed => agrees_found (f value) hFollowed

/-- What was recorded does not change with the tokens. -/
theorem Agrees.of_advance {reading : Reading α} {outcome : Outcome α}
    (h : Agrees cursor.advance reading outcome) : Agrees cursor reading outcome :=
  ⟨h.found_eq, h.diagnostics_eq, h.followed⟩

/-- Past the last token there are ends of input, and nothing requires one. -/
theorem agrees_expect {kind : Kind} (hKind : kind ≠ .eof) (h : cursor.Followed tokens) :
    Agrees cursor (Reading.expect kind tokens) (cursor.expect kind) := by
  have hAhead := h.ahead_eq
  cases tokens with
  | nil =>
      have hOther : cursor.ahead.kind ≠ kind := by
        rw [hAhead]
        exact hKind.symm
      rw [expect, if_neg hOther, hAhead]
      exact agrees_failed _ h
  | cons token rest =>
      rw [expect, hAhead, Reading.expect, List.headD_cons]
      split
      · exact (agrees_found token h.advance.followed).of_advance
      · exact agrees_failed _ h

/-- From a cursor on some tokens an expression is run as it is read, with the
levels of nesting that its depth leaves. -/
def AgreesAt (levels : Nat) : Prop :=
  ∀ (depth : Nat) (floor : Precedence) (cursor : Cursor) (tokens : List Token),
    Expr.nestingLimit - depth = levels → cursor.Holds tokens →
      Agrees cursor (Expr.read levels floor tokens) (expression depth floor cursor)

/-- One case for each kind of token. Where a value is nested, the cursor has advanced, so
it is on the tokens behind the current one. -/
theorem agrees_operand {levels depth : Nat} (hNested : AgreesAt levels)
    (hDepth : Expr.nestingLimit - depth = levels) (h : cursor.Holds tokens) :
    Agrees cursor (Expr.readOperand (Expr.read levels) tokens) (operand depth cursor) := by
  have hCurrent := h.current_eq
  have hAdvance := h.followed.advance
  rw [operand, hCurrent]
  cases tokens with
  | nil => exact agrees_failed _ h.followed
  | cons token rest =>
      obtain ⟨kind, literal⟩ := token
      cases kind with
      | ident => exact agrees_found _ h.followed
      | int =>
          simp only [List.headD_cons, Expr.readOperand]
          cases Numeral.value? literal with
          | some value => exact agrees_found _ h.followed
          | none => exact agrees_failed _ h.followed
      | symbol symbol =>
          cases symbol with
          | bang | minus => exact ((hNested depth .unary _ _ hDepth hAdvance).map _).of_advance
          | openParen =>
              refine ((hNested depth .lowest _ _ hDepth hAdvance).andThen ?_).of_advance
              intro inner behind last hFollowed
              exact (agrees_expect (by decide) hFollowed).map _
          | _ => exact agrees_failed _ h.followed
      | _ => exact agrees_failed _ h.followed

/-- Only binary operators bind tighter than anything. -/
theorem folds_of_lt {floor : Precedence} {kind : Kind} (h : floor < Precedence.ofKind kind) :
    kind ≠ .symbol .semicolon ∧ folds kind = true := by
  cases kind with
  | symbol symbol =>
      have hOperator := Precedence.mem_binaryOperators h
      refine ⟨?_, decide_eq_true (List.mem_map_of_mem hOperator)⟩
      rintro ⟨⟩
      exact absurd hOperator (by decide)
  | _ => exact absurd h (Nat.not_lt_zero _)

/-- Folding ends with the tree it has, at whatever count it is, and the token ahead
stays. -/
theorem operators_of_stops {floor : Precedence} (hStops : Phrase.Stops floor tokens)
    (depth count : Nat) (left : Expr) (h : cursor.Followed tokens) :
    operators depth floor count left cursor = ⟨some left, cursor⟩ := by
  have hAhead : ¬ floor < Precedence.ofKind cursor.ahead.kind := by
    rw [h.ahead_eq]
    cases tokens with
    | nil => exact Nat.not_lt_zero _
    | cons token rest => exact hStops token rfl
  rw [operators, if_neg fun hBoth => hAhead hBoth.2]

/-- A token that binds tighter than the floor is folded in, if there is a fold left for
it. It is never one of those that end folding early. -/
theorem operators_of_binds {floor : Precedence} {token : Token} {rest : List Token}
    (hBinds : floor < Precedence.ofKind token.kind) (depth count : Nat) (left : Expr)
    (h : cursor.Followed (token :: rest)) :
    operators depth floor count left cursor =
      if depth + count ≥ Expr.nestingLimit then ⟨none, cursor.record .tooDeep⟩
      else
        (expression depth (Precedence.ofKind token.kind) cursor.advance.advance).andThen
          fun right last =>
            operators depth floor (count + 1) (.binary token left token.literal right) last := by
  have hAhead : cursor.ahead = token := h.ahead_eq
  obtain ⟨hSemicolon, hFolds⟩ := folds_of_lt hBinds
  rw [operators, hAhead, if_pos ⟨hSemicolon, hBinds⟩]
  exact if_neg (by simp [hFolds])

/-- Where folding stops it makes no difference how many folds are left. -/
theorem agrees_of_stops {nested : Precedence → List Token → Reading Expr} {floor : Precedence}
    (hStops : Phrase.Stops floor tokens) (remaining depth count : Nat) (left : Expr)
    (h : cursor.Followed tokens) :
    Agrees cursor (Expr.readOperators nested floor remaining left tokens)
      (operators depth floor count left cursor) := by
  rw [operators_of_stops hStops depth count left h, Expr.readOperators_of_stops hStops]
  exact agrees_found left h

/-- The folds left are those that depth and count leave of the limit. -/
theorem agrees_operators {levels depth : Nat} (hNested : AgreesAt levels) (floor : Precedence)
    {remaining count : Nat} {left : Expr} (hDepth : Expr.nestingLimit - depth = levels)
    (hRemaining : Expr.nestingLimit - (depth + count) = remaining) (h : cursor.Followed tokens) :
    Agrees cursor (Expr.readOperators (Expr.read levels) floor remaining left tokens)
      (operators depth floor count left cursor) := by
  induction remaining generalizing count left cursor tokens with
  | zero =>
      rcases Phrase.stops_or_binds floor tokens with hStops | ⟨token, rest, rfl, hBinds⟩
      · exact agrees_of_stops hStops _ depth count left h
      · rw [operators_of_binds hBinds depth count left h, if_pos (by omega), Expr.readOperators,
          if_pos hBinds]
        exact agrees_failed _ h
  | succ remaining ih =>
      rcases Phrase.stops_or_binds floor tokens with hStops | ⟨token, rest, rfl, hBinds⟩
      · exact agrees_of_stops hStops _ depth count left h
      · rw [operators_of_binds hBinds depth count left h, if_neg (by omega), Expr.readOperators,
          if_pos hBinds]
        have hOperand := hNested depth (Precedence.ofKind token.kind) cursor.advance.advance rest
          hDepth h.advance.followed.advance
        refine hOperand.of_advance.of_advance.andThen ?_
        intro right behind last hFollowed
        exact ih (by omega) hFollowed

/-- With any number of levels an expression is run as it is read. By induction on the
levels; without one both fail. -/
theorem agreesAt (levels : Nat) : AgreesAt levels := by
  induction levels with
  | zero =>
      intro depth floor cursor tokens hDepth h
      rw [expression, if_pos (by omega), Expr.read]
      exact agrees_failed _ h.followed
  | succ levels ih =>
      intro depth floor cursor tokens hDepth h
      have hInside : Expr.nestingLimit - (depth + 1) = levels := by omega
      rw [expression, if_neg (by omega), Expr.read]
      refine (agrees_operand ih hInside h).andThen ?_
      intro left rest last hFollowed
      exact agrees_operators ih floor hInside hInside hFollowed

end Cursor

end LetLang
