import LetLang.Proofs.Recovery

/-! Tokens behind an end of input. What is read of the tokens before it does not
depend on them: a reading leaves the end of input where it is, or fails at it.
Only a failure passes over an end of input, so a source without diagnostics
ends at its first, and any other can only be continued by what follows. -/
namespace LetLang

namespace Reading

variable {α β : Type} {later : List Token}

/-- A reading of some tokens, and the same reading with an end of input and later
tokens behind them. Those are left over too, unless the reading fails with all
its tokens used up; then it may have passed over the end of input. -/
inductive Continues (later : List Token) : Reading α → Reading α → Prop where
  | found (value : α) (rest : List Token) :
      Continues later (.found value rest) (.found value (rest ++ .eof :: later))
  | failed (cause : Diagnostic) (rest : List Token) :
      Continues later (.failed cause rest) (.failed cause (rest ++ .eof :: later))
  | passed (cause : Diagnostic) (rest : List Token) :
      Continues later (.failed cause []) (.failed cause rest)

/-- A failure of a first reading is one of both, and a value found leaves the end
of input to the second. -/
theorem Continues.andThen {reading continued : Reading α}
    {continuation : α → List Token → Reading β} (h : reading.Continues later continued)
    (hContinuation : ∀ value rest, Continues later (continuation value rest)
      (continuation value (rest ++ .eof :: later))) :
    Continues later (reading.andThen continuation) (continued.andThen continuation) := by
  cases h with
  | found value rest => exact hContinuation value rest
  | failed cause rest => exact .failed cause rest
  | passed cause rest => exact .passed cause rest

/-- A way to read that tokens behind an end of input do not change. -/
def StopsAtEof (reader : List Token → Reading α) : Prop :=
  ∀ tokens later, Continues later (reader tokens) (reader (tokens ++ .eof :: later))

namespace StopsAtEof

theorem andThen {reader : List Token → Reading α} {continuation : α → List Token → Reading β}
    (hReader : StopsAtEof reader) (hContinuation : ∀ value, StopsAtEof (continuation value)) :
    StopsAtEof fun tokens => (reader tokens).andThen continuation :=
  fun tokens later => (hReader tokens later).andThen fun value rest => hContinuation value rest later

theorem map {reader : List Token → Reading α} (hReader : StopsAtEof reader) (f : α → β) :
    StopsAtEof fun tokens => (reader tokens).map f :=
  hReader.andThen fun value rest _ => .found (f value) rest

/-- It is enough to look at the first token: what is read in front of the end of input
alone, and how reading goes on behind a token before it. -/
theorem of_cons {reader : List Token → Reading α}
    (hEof : ∀ later, Continues later (reader []) (reader (.eof :: later)))
    (hBehind : ∀ token, StopsAtEof fun rest => reader (token :: rest)) : StopsAtEof reader := by
  intro tokens later
  cases tokens with
  | nil => exact hEof later
  | cons token rest => exact hBehind token rest later

/-- An end of input is not the kind that is required, so it is reported and stays where it
is. -/
theorem expect (kind : Kind) (hKind : kind ≠ .eof) : StopsAtEof (Reading.expect kind) := by
  apply of_cons
  · intro later
    have hFailed : Reading.expect kind (.eof :: later) =
        .failed (.unexpected kind .eof) (.eof :: later) := if_neg hKind.symm
    rw [hFailed]
    exact .failed _ []
  · intro token rest later
    simp only [Reading.expect]
    split
    · exact .found token rest
    · exact .failed _ (token :: rest)

end StopsAtEof

end Reading

namespace Expr

open Reading (StopsAtEof)

variable {nested : Precedence → List Token → Reading Expr}

/-- An end of input is no operand. Where one is missing, it is passed over. -/
theorem stopsAtEof_readOperand (hNested : ∀ floor, StopsAtEof (nested floor)) :
    StopsAtEof (readOperand nested) := by
  apply StopsAtEof.of_cons fun later => .passed _ later
  intro token rest later
  simp only [readOperand]
  split
  · exact .found _ rest
  · cases Numeral.value? token.literal with
    | some value => exact .found _ rest
    | none => exact .failed _ rest
  · exact (hNested .unary).map _ rest later
  · exact (hNested .unary).map _ rest later
  · have hClose : StopsAtEof (Reading.expect (.symbol .closeParen)) := .expect _ (by decide)
    exact (hNested .lowest).andThen (fun inner => hClose.map _) rest later
  · exact .failed _ rest

/-- An end of input is no operator, so folding stops in front of it. -/
theorem stopsAtEof_readOperators (hNested : ∀ floor, StopsAtEof (nested floor))
    (floor : Precedence) (folds : Nat) (left : Expr) :
    StopsAtEof (readOperators nested floor folds left) := by
  have hEof (folds : Nat) (left : Expr) (later : List Token) :
      Reading.Continues later (readOperators nested floor folds left [])
        (readOperators nested floor folds left (.eof :: later)) := by
    rw [readOperators, readOperators_of_stops (Phrase.stops_cons (Nat.not_lt_zero _) later)]
    exact .found left []
  induction folds generalizing left with
  | zero =>
      apply StopsAtEof.of_cons (hEof 0 left)
      intro token rest later
      simp only [readOperators]
      split
      · exact .failed .tooDeep (token :: rest)
      · exact .found left (token :: rest)
  | succ folds ih =>
      apply StopsAtEof.of_cons (hEof (folds + 1) left)
      intro token rest later
      simp only [readOperators]
      split
      · exact (hNested _).andThen (fun right => ih _) rest later
      · exact .found left (token :: rest)

/-- By induction on the levels. With none left the end of input itself is passed over. -/
theorem stopsAtEof_read (levels : Nat) (floor : Precedence) : StopsAtEof (read levels floor) := by
  induction levels generalizing floor with
  | zero =>
      exact StopsAtEof.of_cons (fun later => .passed .tooDeep later)
        fun token rest later => .failed .tooDeep rest
  | succ levels ih =>
      exact (stopsAtEof_readOperand ih).andThen (stopsAtEof_readOperators ih floor levels)

end Expr

namespace Attempt

/-- An attempt with the tokens it leaves, and the same attempt with an end of input
and later tokens behind its own. -/
structure Continues (later : List Token) (attempted continued : Attempt × List Token) : Prop where
  attempt_eq : continued.1 = attempted.1
  rest_eq_or : continued.2 = attempted.2 ++ .eof :: later ∨
    attempted.2 = [] ∧ attempted.1.diagnostic? ≠ none

variable (later : List Token)

/-- No semicolon behind an end of input belongs to the statement before it. -/
theorem noSemicolonAhead_eof : NoSemicolonAhead (.eof :: later) := by
  intro token hToken
  obtain rfl : Token.eof = token := Option.some.inj hToken
  simp [Token.eof]

/-- A statement goes on as its value does. No semicolon behind the end of input is dropped
for it, unless its value failed and passed that end. -/
theorem continues_finish (statement : Option Expr → Statement)
    {reading continued : Reading Expr} (h : reading.Continues later continued) :
    Continues later (finish statement reading) (finish statement continued) := by
  have hDrop := dropSemicolon_append (noSemicolonAhead_eof later)
  cases h with
  | found value rest => exact ⟨rfl, .inl (hDrop rest)⟩
  | failed cause rest => exact ⟨rfl, .inl (hDrop rest)⟩
  | passed cause rest => exact ⟨rfl, .inr ⟨rfl, Option.some_ne_none cause⟩⟩

theorem continues_finish_read (statement : Option Expr → Statement) (tokens : List Token) :
    Continues later (finish statement (Expr.read Expr.nestingLimit .lowest tokens))
      (finish statement (Expr.read Expr.nestingLimit .lowest (tokens ++ .eof :: later))) :=
  continues_finish later statement (Expr.stopsAtEof_read _ _ tokens later)

/-- A name and an equals sign that are missing at the end of input leave it where it is;
only a missing value may pass it. -/
theorem continues_readBinding (keyword : Token) (tokens : List Token) :
    Continues later (readBinding keyword tokens) (readBinding keyword (tokens ++ .eof :: later)) := by
  have hName := Reading.StopsAtEof.expect .ident (by decide) tokens later
  unfold readBinding
  generalize Reading.expect .ident tokens = name at hName ⊢
  generalize Reading.expect .ident (tokens ++ .eof :: later) = nameContinued at hName ⊢
  cases hName with
  | failed cause rest => exact ⟨rfl, .inl rfl⟩
  | passed cause rest => exact ⟨rfl, .inr ⟨rfl, Option.some_ne_none cause⟩⟩
  | found name behind =>
      have hAssign := Reading.StopsAtEof.expect (.symbol .assign) (by decide) behind later
      dsimp only
      generalize Reading.expect (.symbol .assign) behind = assign at hAssign ⊢
      generalize Reading.expect (.symbol .assign) (behind ++ .eof :: later) = assignContinued
        at hAssign ⊢
      cases hAssign with
      | failed cause rest => exact ⟨rfl, .inl rfl⟩
      | passed cause rest => exact ⟨rfl, .inr ⟨rfl, Option.some_ne_none cause⟩⟩
      | found assign rest => exact continues_finish_read later _ rest

/-- The first token is read before any end of input, so each kind of statement starts as
it did. -/
theorem continues_read (first : Token) (tokens : List Token) :
    Continues later (read first tokens) (read first (tokens ++ .eof :: later)) := by
  unfold read
  split
  · exact continues_readBinding later first tokens
  · exact continues_finish_read later _ tokens
  · exact continues_finish_read later _ (first :: tokens)

/-- Tokens behind an end of input can only add attempts. -/
theorem readAll_prefix (tokens : List Token) :
    readAll tokens <+: readAll (tokens ++ .eof :: later) := by
  fun_induction readAll tokens with
  | case1 => exact List.nil_prefix
  | case2 first tokens hEof => exact List.nil_prefix
  | case3 first tokens hEof ih =>
      obtain ⟨hAttempt, hRest⟩ := continues_read later first tokens
      rw [List.cons_append, readAll_cons hEof, hAttempt, List.prefix_cons_inj]
      rcases hRest with hRest | ⟨hNil, -⟩
      · rwa [hRest]
      · rw [hNil, readAll_of_atEnd atEnd_nil]
        exact List.nil_prefix

/-- If no attempt fails, none passes over the end of input, and reading ends there. -/
theorem readAll_append_eof {tokens : List Token}
    (hComplete : ∀ attempt ∈ readAll tokens, attempt.diagnostic? = none) :
    readAll (tokens ++ .eof :: later) = readAll tokens := by
  fun_induction readAll tokens with
  | case1 => exact readAll_of_atEnd (atEnd_cons rfl later)
  | case2 first tokens hEof => exact readAll_of_atEnd (atEnd_cons hEof _)
  | case3 first tokens hEof ih =>
      obtain ⟨hAttempt, hRest⟩ := continues_read later first tokens
      rw [List.cons_append, readAll_cons hEof, hAttempt]
      rcases hRest with hRest | ⟨-, hFailed⟩
      · rw [hRest, ih fun attempt hMem => hComplete attempt (List.mem_cons_of_mem _ hMem)]
      · exact absurd (hComplete _ List.mem_cons_self) hFailed

end Attempt

namespace Program

open Attempt

/-- The tokens of a source around a NUL are those of the text before it, an end of input,
and those of the text behind it. Each text is lexed by itself. -/
theorem attempts_append_nul (before after : String) :
    attempts (before ++ "\x00" ++ after) =
      readAll (Lexer.stream (Text.bytes before) ++ .eof :: Lexer.stream (Text.bytes after)) := by
  rw [attempts, Lexer.stream_append_nul]

/-- Text behind a NUL character never takes back a statement or a diagnostic of the
source before it. If that source has no diagnostics, the text is not read at all. -/
theorem parse_append_nul (before after : String) :
    (parse before).1.statements <+: (parse (before ++ "\x00" ++ after)).1.statements ∧
      (parse before).2 <+: (parse (before ++ "\x00" ++ after)).2 ∧
        ((parse before).2 = [] → parse (before ++ "\x00" ++ after) = parse before) := by
  have hPrefix : attempts before <+: attempts (before ++ "\x00" ++ after) := by
    rw [attempts_append_nul]
    exact readAll_prefix _ _
  refine ⟨?_, ?_, ?_⟩
  · rw [parse_eq, parse_eq]
    exact hPrefix.filterMap statement?
  · rw [parse_eq, parse_eq]
    exact hPrefix.filterMap diagnostic?
  · intro hParse
    have hAll : attempts (before ++ "\x00" ++ after) = attempts before := by
      rw [attempts_append_nul]
      exact readAll_append_eof _ fun attempt => diagnostic?_eq_none_of_parse hParse
    rw [parse_eq, parse_eq, hAll]

/-- Behind `return` reading goes on, because the missing value is only missed at the NUL. The
statement and its diagnostic stay, and another statement follows. Behind a name, which has no
diagnostics, the other name is not read. -/
theorem parse_append_nul_return :
    parse "return" = (⟨[.result (.ofKeyword .returnWord) none]⟩, [.noOperand .eof]) ∧
      parse ("return" ++ "\x00" ++ "x") =
        (⟨[.result (.ofKeyword .returnWord) none,
            .expression ⟨.ident, "x"⟩ (some (.name (.ofToken ⟨.ident, "x"⟩)))]⟩,
          [.noOperand .eof]) ∧
      (parse "return").1.statements <+: (parse ("return" ++ "\x00" ++ "x")).1.statements ∧
      (parse "return").2 <+: (parse ("return" ++ "\x00" ++ "x")).2 ∧
      parse ("x" ++ "\x00" ++ "y") = parse "x" := by
  obtain ⟨hStatements, hDiagnostics, -⟩ := parse_append_nul "return" "x"
  obtain ⟨-, -, hAlone⟩ := parse_append_nul "x" "y"
  have hComplete : (parse "x").2 = [] := by decide +kernel
  exact ⟨by decide +kernel, by decide +kernel, hStatements, hDiagnostics, hAlone hComplete⟩

end Program

end LetLang
