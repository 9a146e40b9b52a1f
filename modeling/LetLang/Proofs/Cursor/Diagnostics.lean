import LetLang.Proofs.Cursor.Reading

/-! Absence and diagnostics. What finds nothing records one diagnostic and what finds
something records none, from whatever state it starts: failures are neither reported
again on their way out nor lost. The diagnostics of a program are therefore as many
as the values and the bindings that are missing from it. -/
namespace LetLang

namespace Cursor

open Attempt

variable {cursor : Cursor} {tokens : List Token}

/-- What is present left the diagnostics as they were, what is absent put one more
behind them. -/
def Pairs (present : Bool) (before after : List Diagnostic) : Prop :=
  if present then after = before else ∃ cause, after = before ++ [cause]

/-- In numbers: what is present records nothing, and what is absent one diagnostic. -/
theorem Pairs.exists_append {present : Bool} {before after : List Diagnostic}
    (h : Pairs present before after) :
    ∃ recorded, after = before ++ recorded ∧ recorded.length = (!present).toNat := by
  cases present with
  | true => exact ⟨[], h.trans (List.append_nil _).symm, rfl⟩
  | false =>
      obtain ⟨cause, hAfter⟩ := h
      exact ⟨[cause], hAfter, rfl⟩

/-- Where a cursor does what a reading says, absence is paired with a diagnostic, since a
reading has either a value or a cause. -/
theorem Agrees.pairs {α : Type} {reading : Reading α} {outcome : Outcome α}
    (h : Agrees cursor reading outcome) :
    Pairs outcome.found.isSome cursor.diagnostics outcome.cursor.diagnostics := by
  rw [h.found_eq, h.diagnostics_eq]
  cases reading with
  | found value rest => exact List.append_nil _
  | failed cause rest => exact ⟨cause, rfl⟩

/-- An expression records one diagnostic if nothing is found, and none otherwise, at every
depth and from every cursor. Leaving nested levels after a failure records no more. -/
theorem expression_pairs (depth : Nat) (floor : Precedence) (cursor : Cursor) :
    Pairs (expression depth floor cursor).found.isSome cursor.diagnostics
      (expression depth floor cursor).cursor.diagnostics :=
  (agreesAt _ depth floor cursor _ rfl cursor.holds_unread).pairs

/-- A semicolon that is missing is not reported. -/
theorem skipSemicolon_diagnostics (cursor : Cursor) :
    cursor.skipSemicolon.diagnostics = cursor.diagnostics := by
  unfold skipSemicolon
  split <;> rfl

theorem Followed.skipSemicolon (h : cursor.Followed tokens) :
    cursor.skipSemicolon.Followed (dropSemicolon tokens) := by
  have hAhead := h.ahead_eq
  unfold Cursor.skipSemicolon dropSemicolon
  cases tokens with
  | nil => rwa [hAhead, if_neg (by decide)]
  | cons token rest =>
      simp only [hAhead, List.headD_cons]
      split
      · exact h.advance.followed
      · exact h

/-- What a statement does before its value: a binding can be abandoned, and all else
comes to a value with nothing recorded. -/
inductive Opens (depth : Nat) (cursor : Cursor) (first : Token) (tokens : List Token) : Prop where
  | abandoned (cause : Diagnostic) (last : Cursor) (rest : List Token)
      (keyword : first.kind = .keyword .letWord)
      (run_eq : statement depth cursor = ⟨none, last⟩)
      (read_eq : Attempt.read first tokens = (.abandoned cause, rest))
      (diagnostics_eq : last.diagnostics = cursor.diagnostics ++ [cause])
      (followed : last.Followed rest)
  | value (make : Option Expr → Statement) (start : Cursor) (rest : List Token)
      (value_make : ∀ value, (make value).value = value)
      (run_eq : statement depth cursor = withValue depth make start)
      (read_eq : Attempt.read first tokens =
        finish make (Expr.read Expr.nestingLimit .lowest rest))
      (diagnostics_eq : start.diagnostics = cursor.diagnostics) (holds : start.Holds rest)

/-- A binding is abandoned for its name or its equals sign only. Behind them a missing
value leaves it in place. -/
theorem opens_binding {first : Token} (hKind : first.kind = .keyword .letWord) (depth : Nat)
    (h : cursor.Holds (first :: tokens)) : Opens depth cursor first tokens := by
  have hCurrent : cursor.current = first := h.current_eq
  have hStatement : statement depth cursor = binding depth cursor := by
    rw [statement, hCurrent, hKind]
  have hRead : Attempt.read first tokens = readBinding first tokens := by
    rw [Attempt.read, hKind]
  have hName : Agrees cursor (Reading.expect .ident tokens) (cursor.expect .ident) :=
    agrees_expect (by decide) h.followed
  rw [readBinding] at hRead
  rw [binding] at hStatement
  cases hReadName : Reading.expect .ident tokens with
  | failed cause rest =>
      rw [hReadName] at hName hRead
      rw [Outcome.andThen_of_none hName.found_eq] at hStatement
      exact .abandoned cause _ rest hKind hStatement hRead hName.diagnostics_eq hName.followed
  | found name behind =>
      rw [hReadName] at hName hRead
      rw [Outcome.andThen_of_some hName.found_eq] at hStatement
      have hNamed : (cursor.expect .ident).cursor.diagnostics = cursor.diagnostics :=
        hName.diagnostics_eq.trans (List.append_nil _)
      have hAssign : Agrees (cursor.expect .ident).cursor (Reading.expect (.symbol .assign) behind)
          ((cursor.expect .ident).cursor.expect (.symbol .assign)) :=
        agrees_expect (by decide) hName.followed
      cases hReadAssign : Reading.expect (.symbol .assign) behind with
      | failed cause rest =>
          rw [hReadAssign] at hAssign
          rw [Outcome.andThen_of_none hAssign.found_eq] at hStatement
          refine .abandoned cause _ rest hKind hStatement ?_ ?_ hAssign.followed
          · simp only [hRead, hReadAssign]
          · rw [hAssign.diagnostics_eq, hNamed]
            rfl
      | found assign rest =>
          rw [hReadAssign] at hAssign
          rw [Outcome.andThen_of_some hAssign.found_eq, hCurrent] at hStatement
          refine .value (.binding first (.ofToken name)) _ rest (fun _ => rfl) hStatement ?_ ?_
            hAssign.followed.advance
          · simp only [hRead, hReadAssign]
          · exact (hAssign.diagnostics_eq.trans (List.append_nil _)).trans hNamed

/-- Only a binding can be abandoned; the other two kinds of statement come to their value
at once. -/
theorem opens {first : Token} (depth : Nat) (h : cursor.Holds (first :: tokens)) :
    Opens depth cursor first tokens := by
  have hCurrent : cursor.current = first := h.current_eq
  by_cases hLet : first.kind = .keyword .letWord
  · exact opens_binding hLet depth h
  by_cases hReturn : first.kind = .keyword .returnWord
  · refine .value (.result first) cursor.advance tokens (fun _ => rfl) ?_ ?_ rfl
      h.followed.advance
    · rw [statement, hCurrent, hReturn]
    · rw [Attempt.read, hReturn]
  · refine .value (.expression first) cursor (first :: tokens) (fun _ => rfl) ?_ ?_ rfl h
    · rw [statement, hCurrent]
      split <;> first | contradiction | rfl
    · rw [Attempt.read]
      split <;> first | contradiction | rfl

/-- Whether what came of a statement has all that a statement has. -/
def isComplete : Option Statement → Bool
  | some statement => statement.value.isSome
  | none => false

/-- A statement records one diagnostic if it is abandoned or has no value, and none
otherwise. It never records two, since an abandoned binding does not come to a value. -/
theorem statement_pairs (depth : Nat) (cursor : Cursor) :
    Pairs (isComplete (statement depth cursor).found) cursor.diagnostics
      (statement depth cursor).cursor.diagnostics := by
  cases opens depth cursor.holds_unread with
  | abandoned cause last rest hKeyword hRun hRead hDiagnostics hFollowed =>
      rw [hRun]
      exact ⟨cause, hDiagnostics⟩
  | value make start rest hMake hRun hRead hDiagnostics hHolds =>
      rw [hRun, withValue, isComplete, hMake, skipSemicolon_diagnostics, ← hDiagnostics]
      exact expression_pairs depth .lowest start

/-- If there is no statement, the cursor was on a `let`. Any other kind of statement is
there even without its value. -/
theorem kind_of_statement_eq_none {depth : Nat} (h : (statement depth cursor).found = none) :
    cursor.current.kind = .keyword .letWord := by
  cases opens depth cursor.holds_unread with
  | abandoned cause last rest hKeyword hRun hRead hDiagnostics hFollowed => exact hKeyword
  | value make start rest hMake hRun hRead hDiagnostics hHolds =>
      rw [hRun] at h
      cases h

/-- One diagnostic is recorded for each outcome that is not complete. -/
theorem Runs.diagnostics {outcomes : List (Option Statement)} {last : Cursor}
    (h : Runs cursor outcomes last) :
    ∃ recorded, last.diagnostics = cursor.diagnostics ++ recorded ∧
      recorded.length = outcomes.countP fun outcome => !isComplete outcome := by
  induction h with
  | stop hEnd => exact ⟨[], (List.append_nil _).symm, rfl⟩
  | @step cursor last outcomes hMore later ih =>
      obtain ⟨first, hFirst, hFirstLength⟩ := (statement_pairs 0 cursor).exists_append
      obtain ⟨recorded, hRecorded, hLength⟩ := ih
      refine ⟨first ++ recorded, ?_, ?_⟩
      · rw [← List.append_assoc, ← hFirst]
        exact hRecorded
      · rw [List.length_append, hFirstLength, hLength, List.countP_cons, Nat.add_comm]
        cases isComplete (statement 0 cursor).found <;> rfl

/-- What a run of one statement leaves is what an attempt at it leaves. -/
structure Attempts (before : Cursor) (attempt : Attempt × List Token)
    (outcome : Outcome Statement) : Prop where
  found_eq : outcome.found = attempt.1.statement?
  diagnostics_eq : outcome.cursor.diagnostics =
    before.diagnostics ++ attempt.1.diagnostic?.toList
  followed : outcome.cursor.Followed attempt.2

theorem Agrees.attempts {reading : Reading Expr} {value : Outcome Expr}
    (h : Agrees cursor reading value) (make : Option Expr → Statement) :
    Attempts cursor (finish make reading)
      ⟨some (make value.found), value.cursor.skipSemicolon⟩ := by
  have hDiagnostics := h.diagnostics_eq
  have hFollowed := h.followed.skipSemicolon
  rw [← skipSemicolon_diagnostics] at hDiagnostics
  rw [h.found_eq]
  cases reading with
  | found expr rest => exact ⟨rfl, hDiagnostics, hFollowed⟩
  | failed cause rest => exact ⟨rfl, hDiagnostics, hFollowed⟩

/-- From depth zero a statement is run as it is attempted, with the full limit of levels.
Other depths have no attempt to compare with. -/
theorem attempts_statement {first : Token} (h : cursor.Holds (first :: tokens)) :
    Attempts cursor (Attempt.read first tokens) (statement 0 cursor) := by
  cases opens 0 h with
  | abandoned cause last rest hKeyword hRun hRead hDiagnostics hFollowed =>
      rw [hRun, hRead]
      exact ⟨rfl, hDiagnostics, hFollowed⟩
  | value make start rest hMake hRun hRead hDiagnostics hHolds =>
      obtain ⟨hFound, hRecorded, hFollowed⟩ :=
        (agreesAt Expr.nestingLimit 0 .lowest start rest rfl hHolds).attempts make
      rw [hDiagnostics] at hRecorded
      rw [hRun, hRead]
      exact ⟨hFound, hRecorded, hFollowed⟩

/-- Past its last token a cursor stands on an end of input, just as on one in the
source. -/
theorem Holds.kind_of_atEnd (h : cursor.Holds tokens) (hEnd : AtEnd tokens) :
    cursor.current.kind = .eof := by
  rw [h.current_eq]
  exact hEnd.kind_headD

/-- At an end of input nothing is attempted, even if tokens follow it. -/
theorem exists_runs_of_atEnd (h : cursor.Holds tokens) (hEnd : AtEnd tokens) :
    ∃ last, Runs cursor ((readAll tokens).map Attempt.statement?) last ∧
      last.diagnostics = cursor.diagnostics ++ (readAll tokens).filterMap Attempt.diagnostic? := by
  rw [readAll_of_atEnd hEnd]
  exact ⟨cursor, .stop (h.kind_of_atEnd hEnd), (List.append_nil _).symm⟩

/-- Statements are run as they are attempted one after another, to an end. -/
theorem exists_runs (h : cursor.Holds tokens) :
    ∃ last, Runs cursor ((readAll tokens).map Attempt.statement?) last ∧
      last.diagnostics = cursor.diagnostics ++ (readAll tokens).filterMap Attempt.diagnostic? := by
  induction tokens using readAll.induct generalizing cursor with
  | case1 => exact exists_runs_of_atEnd h atEnd_nil
  | case2 first tokens hEof =>
      refine exists_runs_of_atEnd h ?_
      rintro _ ⟨⟩
      exact hEof
  | case3 first tokens hEof ih =>
      have hMore : cursor.current.kind ≠ .eof := by
        rw [h.current_eq]
        exact hEof
      obtain ⟨hFound, hDiagnostics, hFollowed⟩ := attempts_statement h
      obtain ⟨last, hLater, hLast⟩ := ih hFollowed.advance
      rw [readAll_cons hEof, List.map_cons, ← hFound]
      refine ⟨last, .step hMore hLater, ?_⟩
      have hAdvance : last.diagnostics = (statement 0 cursor).cursor.diagnostics ++ _ := hLast
      rw [hAdvance, hDiagnostics, List.append_assoc, List.filterMap_cons]
      cases (Attempt.read first tokens).1.diagnostic? <;> rfl

/-- A parser that takes over from a lexer finds what a cursor finds, statement by statement. -/
theorem exists_runs_ofLexer (lexer : Lexer) :
    ∃ last, Runs (ofLexer lexer)
        ((readAll (Lexer.stream lexer.ahead)).map Attempt.statement?) last ∧
      (Parser.ofLexer lexer).program =
        (⟨((readAll (Lexer.stream lexer.ahead)).map Attempt.statement?).filterMap id⟩,
          ⟨[], last.diagnostics⟩) := by
  obtain ⟨last, hRun, hLast⟩ := exists_runs (holds_ofLexer lexer)
  refine ⟨last, hRun, ?_⟩
  rw [hLast, List.filterMap_map]
  rfl

/-- The program of a source is what a cursor makes of it, statement by statement. -/
theorem exists_runs_ofString (source : String) :
    ∃ outcomes last, Runs (ofString source) outcomes last ∧
      Program.parse source = (⟨outcomes.filterMap id⟩, last.diagnostics) := by
  obtain ⟨last, hRun, hProgram⟩ := exists_runs_ofLexer (.ofString source)
  refine ⟨_, last, hRun, ?_⟩
  exact congrArg (fun result => (result.1, result.2.diagnostics)) hProgram

theorem countP_not_isComplete (outcomes : List (Option Statement)) :
    (outcomes.countP fun outcome => !isComplete outcome) =
      (outcomes.filterMap id).countP (fun statement => statement.value.isNone) +
        outcomes.countP Option.isNone := by
  induction outcomes with
  | nil => rfl
  | cons outcome outcomes ih =>
      rw [List.countP_cons, ih]
      cases outcome with
      | none =>
          rw [List.filterMap_cons_none rfl, List.countP_cons]
          exact Nat.add_assoc _ _ _
      | some statement =>
          have hKept : (some statement :: outcomes).filterMap id =
            statement :: outcomes.filterMap id := rfl
          rw [hKept, List.countP_cons, List.countP_cons_of_neg Bool.false_ne_true]
          cases hValue : statement.value <;> simp [isComplete, hValue, Nat.add_right_comm]

/-- Absence is paired with a diagnostic: in every expression and every statement,
from every state and at every depth, and so in every program. -/
theorem absence_paired_with_diagnostic :
    (∀ (depth : Nat) (floor : Precedence) (cursor : Cursor),
      (expression depth floor cursor).found =
        (Expr.read (Expr.nestingLimit - depth) floor cursor.unread).value? ∧
      Pairs (expression depth floor cursor).found.isSome cursor.diagnostics
        (expression depth floor cursor).cursor.diagnostics) ∧
    (∀ (depth : Nat) (cursor : Cursor),
      ((statement depth cursor).found = none → cursor.current.kind = .keyword .letWord) ∧
      Pairs (isComplete (statement depth cursor).found) cursor.diagnostics
        (statement depth cursor).cursor.diagnostics) ∧
    ∀ source : String, ∃ outcomes last, Runs (ofString source) outcomes last ∧
      Program.parse source = (⟨outcomes.filterMap id⟩, last.diagnostics) ∧
      (Program.parse source).2.length =
        (Program.parse source).1.statements.countP (fun statement => statement.value.isNone) +
          outcomes.countP Option.isNone ∧
      ((Program.parse source).2 = [] ↔ ∀ outcome ∈ outcomes, isComplete outcome = true) := by
  refine ⟨fun depth floor cursor => ⟨?_, expression_pairs depth floor cursor⟩,
    fun depth cursor => ⟨kind_of_statement_eq_none, statement_pairs depth cursor⟩,
    fun source => ?_⟩
  · exact (agreesAt _ depth floor cursor _ rfl cursor.holds_unread).found_eq
  · obtain ⟨outcomes, last, hRun, hParse⟩ := exists_runs_ofString source
    obtain ⟨recorded, hRecorded, hLength⟩ := hRun.diagnostics
    have hCount : (Program.parse source).2.length =
        outcomes.countP fun outcome => !isComplete outcome := by
      rw [hParse, hRecorded]
      exact hLength
    refine ⟨outcomes, last, hRun, hParse, ?_, ?_⟩
    · rw [hCount, countP_not_isComplete, hParse]
    · rw [← List.length_eq_zero_iff, hCount, List.countP_eq_zero]
      simp only [Bool.not_eq_true', Bool.not_eq_false]

end Cursor

end LetLang
