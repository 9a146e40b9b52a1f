import LetLang.Proofs.Grammar.Acceptance
import LetLang.Proofs.Token.Relexing

/-! Recovery. No reading that starts before a semicolon goes on behind it: what
finds a value leaves the semicolon for others, and what fails passes over it at
most. A statement therefore ends at its next semicolon, whatever is wrong with
it, and the statements behind are read as if nothing had come before. -/
namespace LetLang

/-- Tokens of which the last is a semicolon. -/
def Terminated (tokens : List Token) : Prop :=
  ∃ before, tokens = before ++ [.ofSymbol .semicolon]

theorem terminated_semicolon : Terminated [.ofSymbol .semicolon] := ⟨[], rfl⟩

theorem not_terminated_nil : ¬ Terminated [] := by
  intro h
  obtain ⟨before, hTokens⟩ := h
  exact List.append_ne_nil_of_right_ne_nil before (List.cons_ne_nil _ _) hTokens.symm

/-- What is in front of the last semicolon does not matter. -/
theorem Terminated.prepend {tokens : List Token} (h : Terminated tokens) (front : List Token) :
    Terminated (front ++ tokens) := by
  obtain ⟨before, rfl⟩ := h
  exact ⟨front ++ before, (List.append_assoc front before _).symm⟩

/-- A first token is the last semicolon, or has it behind it. -/
theorem Terminated.cons_cases {token : Token} {rest : List Token}
    (h : Terminated (token :: rest)) :
    (token = .ofSymbol .semicolon ∧ rest = []) ∨ Terminated rest := by
  obtain ⟨before, hTokens⟩ := h
  cases before with
  | nil => exact .inl (List.cons.inj hTokens)
  | cons first before => exact .inr ⟨before, (List.cons.inj hTokens).2⟩

/-- A token that is no semicolon is not the last. -/
theorem Terminated.tail {token : Token} {rest : List Token} (h : Terminated (token :: rest))
    (hToken : token.kind ≠ .symbol .semicolon) : Terminated rest := by
  rcases h.cons_cases with ⟨rfl, -⟩ | hRest
  · exact absurd rfl hToken
  · exact hRest

/-- Reading from the front keeps the last semicolon in sight until it is passed. -/
theorem Terminated.of_suffix {tokens rest : List Token} (h : Terminated tokens)
    (hSuffix : rest <:+ tokens) : rest = [] ∨ Terminated rest := by
  induction tokens with
  | nil => exact .inl (List.suffix_nil.mp hSuffix)
  | cons token tokens ih =>
      rcases List.suffix_cons_iff.mp hSuffix with rfl | hSuffix
      · exact .inr h
      · rcases h.cons_cases with ⟨-, rfl⟩ | hTokens
        · exact .inl (List.suffix_nil.mp hSuffix)
        · exact ih hTokens hSuffix

namespace Reading

variable {α β : Type}

/-- The reading with more tokens behind those that are left. -/
def append (reading : Reading α) (later : List Token) : Reading α :=
  match reading with
  | found value rest => found value (rest ++ later)
  | failed cause rest => failed cause (rest ++ later)

theorem append_nil (reading : Reading α) : reading.append [] = reading := by
  cases reading <;> simp [append]

/-- A way to read that does not get behind a last semicolon: whatever comes
there is left as it is, and a value is found before the semicolon. -/
structure StopsAtSemicolon (reader : List Token → Reading α) : Prop where
  append_eq : ∀ tokens later, Terminated tokens →
    reader (tokens ++ later) = (reader tokens).append later
  terminated : ∀ tokens value rest, Terminated tokens →
    reader tokens = .found value rest → Terminated rest

namespace StopsAtSemicolon

/-- A value found behind tokens that are left in front of the others. -/
theorem of_found (value : α) (front : List Token) :
    StopsAtSemicolon fun rest => found value (front ++ rest) := by
  constructor
  · intro tokens later h
    rw [append, List.append_assoc]
  · intro tokens result rest h hFound
    obtain ⟨-, rfl⟩ := found.inj hFound
    exact h.prepend front

/-- A failure may leave any tokens, the semicolon among them or not. -/
theorem of_failed (cause : Diagnostic) (front : List Token) :
    StopsAtSemicolon fun rest => (failed cause (front ++ rest) : Reading α) := by
  constructor
  · intro tokens later h
    rw [append, List.append_assoc]
  · intro tokens result rest h hFound
    cases hFound

/-- The second part starts where the last semicolon is still ahead, because the first has
found its value before it. -/
theorem andThen {reader : List Token → Reading α} {continuation : α → List Token → Reading β}
    (hReader : StopsAtSemicolon reader)
    (hContinuation : ∀ value, StopsAtSemicolon (continuation value)) :
    StopsAtSemicolon fun tokens => (reader tokens).andThen continuation := by
  constructor
  · intro tokens later h
    rw [hReader.append_eq tokens later h]
    cases hRead : reader tokens with
    | failed cause rest => rfl
    | found value rest =>
        exact (hContinuation value).append_eq rest later (hReader.terminated _ _ _ h hRead)
  · intro tokens result left h hFound
    cases hRead : reader tokens with
    | failed cause rest =>
        rw [hRead] at hFound
        cases hFound
    | found value rest =>
        rw [hRead] at hFound
        have hRest := hReader.terminated _ _ _ h hRead
        exact (hContinuation value).terminated _ _ _ hRest hFound

theorem map {reader : List Token → Reading α} (hReader : StopsAtSemicolon reader) (f : α → β) :
    StopsAtSemicolon fun tokens => (reader tokens).map f :=
  hReader.andThen fun value => of_found (f value) []

/-- It is enough to look at the first token: what is read of the last semicolon
alone, and how reading goes on behind a token that is not the last. -/
theorem of_cons {reader : List Token → Reading α} (reading : Reading α)
    (hSemicolon : ∀ later, reader (.ofSymbol .semicolon :: later) = reading.append later)
    (hReading : ∀ value rest, reading = .found value rest → Terminated rest)
    (hBehind : ∀ token, StopsAtSemicolon fun rest => reader (token :: rest)) :
    StopsAtSemicolon reader := by
  have hAlone : reader [.ofSymbol .semicolon] = reading := by
    rw [hSemicolon, append_nil]
  constructor
  · intro tokens later h
    cases tokens with
    | nil => exact absurd h not_terminated_nil
    | cons token rest =>
        rcases h.cons_cases with ⟨rfl, rfl⟩ | hRest
        · rw [hAlone]
          exact hSemicolon later
        · exact (hBehind token).append_eq rest later hRest
  · intro tokens value left h hFound
    cases tokens with
    | nil => exact absurd h not_terminated_nil
    | cons token rest =>
        rcases h.cons_cases with ⟨rfl, rfl⟩ | hRest
        · exact hReading value left (hAlone.symm.trans hFound)
        · exact (hBehind token).terminated rest value left hRest hFound

/-- A reader that finds its value in front of the semicolon stops there, if it does behind
every other token. -/
theorem of_cons_found {reader : List Token → Reading α} {value : α}
    (hSemicolon : ∀ later,
      reader (.ofSymbol .semicolon :: later) = .found value (.ofSymbol .semicolon :: later))
    (hBehind : ∀ token, StopsAtSemicolon fun rest => reader (token :: rest)) :
    StopsAtSemicolon reader := by
  apply of_cons (.found value [.ofSymbol .semicolon]) hSemicolon _ hBehind
  intro result rest hFound
  obtain ⟨-, rfl⟩ := found.inj hFound
  exact terminated_semicolon

/-- So does one that fails at the semicolon. It may pass over it, but not over what comes
next. -/
theorem of_cons_failed {reader : List Token → Reading α} {cause : Diagnostic} (front : List Token)
    (hSemicolon : ∀ later,
      reader (.ofSymbol .semicolon :: later) = .failed cause (front ++ later))
    (hBehind : ∀ token, StopsAtSemicolon fun rest => reader (token :: rest)) :
    StopsAtSemicolon reader := by
  apply of_cons (.failed cause front) hSemicolon _ hBehind
  intro result rest hFound
  cases hFound

/-- A semicolon that is not asked for is reported and stays. -/
theorem expect {kind : Kind} (hKind : kind ≠ .symbol .semicolon) :
    StopsAtSemicolon (Reading.expect kind) := by
  have hOther : (Token.ofSymbol .semicolon).kind ≠ kind := hKind.symm
  apply of_cons_failed [.ofSymbol .semicolon] fun later => if_neg hOther
  intro token
  by_cases hToken : token.kind = kind
  · have hFound (rest : List Token) : Reading.expect kind (token :: rest) = found token rest :=
      if_pos hToken
    simp only [hFound]
    exact of_found token []
  · have hFailed (rest : List Token) : Reading.expect kind (token :: rest) =
        failed (.unexpected kind token.kind) (token :: rest) := if_neg hToken
    simp only [hFailed]
    exact of_failed _ [token]

end StopsAtSemicolon

end Reading

namespace Expr

open Reading (StopsAtSemicolon)

variable {nested : Precedence → List Token → Reading Expr}

/-- A semicolon starts no operand, and a group does not close over one. -/
theorem stopsAtSemicolon_readOperand (hNested : ∀ floor, StopsAtSemicolon (nested floor)) :
    StopsAtSemicolon (readOperand nested) := by
  apply StopsAtSemicolon.of_cons_failed [] fun later => rfl
  intro token
  simp only [readOperand]
  split
  · exact .of_found _ []
  · cases Numeral.value? token.literal with
    | some value => exact .of_found _ []
    | none => exact .of_failed _ []
  · exact (hNested .unary).map _
  · exact (hNested .unary).map _
  · have hClose : StopsAtSemicolon (Reading.expect (.symbol .closeParen)) := .expect (by decide)
    exact (hNested .lowest).andThen fun inner => hClose.map _
  · exact .of_failed _ []

/-- A semicolon is no operator, so folding stops in front of it. -/
theorem stopsAtSemicolon_readOperators (hNested : ∀ floor, StopsAtSemicolon (nested floor))
    (floor : Precedence) (folds : Nat) (left : Expr) :
    StopsAtSemicolon (readOperators nested floor folds left) := by
  have hSemicolon (folds : Nat) (left : Expr) (later : List Token) :
      readOperators nested floor folds left (.ofSymbol .semicolon :: later) =
        .found left (.ofSymbol .semicolon :: later) :=
    readOperators_of_stops (Phrase.stops_cons (Nat.not_lt_zero _) later) folds left
  induction folds generalizing left with
  | zero =>
      apply StopsAtSemicolon.of_cons_found (hSemicolon 0 left)
      intro token
      simp only [readOperators]
      split
      · exact .of_failed .tooDeep [token]
      · exact .of_found left [token]
  | succ folds ih =>
      apply StopsAtSemicolon.of_cons_found (hSemicolon (folds + 1) left)
      intro token
      simp only [readOperators]
      split
      · exact (hNested _).andThen fun right => ih _
      · exact .of_found left [token]

/-- By induction on the levels. Without one the first token is passed over, which may be
the semicolon. -/
theorem stopsAtSemicolon_read (levels : Nat) (floor : Precedence) :
    StopsAtSemicolon (read levels floor) := by
  induction levels generalizing floor with
  | zero =>
      apply StopsAtSemicolon.of_cons_failed [] fun later => rfl
      exact fun token => .of_failed .tooDeep []
  | succ levels ih =>
      exact (stopsAtSemicolon_readOperand ih).andThen (stopsAtSemicolon_readOperators ih floor levels)

end Expr

namespace Attempt

variable {later : List Token}

/-- If all tokens are used up, a semicolon could be taken from those that follow; hence
the condition on them. -/
theorem dropSemicolon_append (hLater : NoSemicolonAhead later) (tokens : List Token) :
    dropSemicolon (tokens ++ later) = dropSemicolon tokens ++ later := by
  cases tokens with
  | cons token rest =>
      simp only [List.cons_append, dropSemicolon]
      split <;> rfl
  | nil => exact dropSemicolon_of_noSemicolonAhead hLater

/-- What follows is left over as it is, and the statement is the same. -/
theorem finish_append (hLater : NoSemicolonAhead later) (statement : Option Expr → Statement)
    (reading : Reading Expr) :
    finish statement (reading.append later) = (finish statement reading).map id (· ++ later) := by
  cases reading with
  | found value rest => exact congrArg (Prod.mk _) (dropSemicolon_append hLater rest)
  | failed cause rest => exact congrArg (Prod.mk _) (dropSemicolon_append hLater rest)

/-- A value and its statement end at the semicolon, found or failed. -/
theorem finish_read_append (hLater : NoSemicolonAhead later)
    (statement : Option Expr → Statement) {tokens : List Token} (h : Terminated tokens) :
    finish statement (Expr.read Expr.nestingLimit .lowest (tokens ++ later)) =
      (finish statement (Expr.read Expr.nestingLimit .lowest tokens)).map id (· ++ later) := by
  rw [(Expr.stopsAtSemicolon_read _ _).append_eq tokens later h]
  exact finish_append hLater statement _

/-- Where a binding is abandoned, the semicolon stays for the statement that its leftovers
make. -/
theorem readBinding_append (hLater : NoSemicolonAhead later) (keyword : Token)
    {tokens : List Token} (h : Terminated tokens) :
    readBinding keyword (tokens ++ later) =
      (readBinding keyword tokens).map id (· ++ later) := by
  have hName : Reading.StopsAtSemicolon (Reading.expect .ident) := .expect (by decide)
  have hAssign : Reading.StopsAtSemicolon (Reading.expect (.symbol .assign)) := .expect (by decide)
  unfold readBinding
  rw [hName.append_eq tokens later h]
  cases hFound : Reading.expect .ident tokens with
  | failed cause rest => rfl
  | found name behind =>
      have hBehind := hName.terminated _ _ _ h hFound
      simp only [Reading.append]
      rw [hAssign.append_eq behind later hBehind]
      cases hFoundAssign : Reading.expect (.symbol .assign) behind with
      | failed cause rest => rfl
      | found assign rest =>
          exact finish_read_append hLater _ (hAssign.terminated _ _ _ hBehind hFoundAssign)

/-- An attempt at a statement ends at its semicolon, found or failed. -/
theorem read_append (hLater : NoSemicolonAhead later) {first : Token} {tokens : List Token}
    (h : Terminated (first :: tokens)) :
    Attempt.read first (tokens ++ later) = (Attempt.read first tokens).map id (· ++ later) := by
  unfold Attempt.read
  split
  · next hKind => exact readBinding_append hLater first (h.tail (by simp [hKind]))
  · next hKind => exact finish_read_append hLater _ (h.tail (by simp [hKind]))
  · exact finish_read_append hLater _ h

/-- The attempts at statements up to a semicolon are the same whatever comes
behind it, and the attempts behind it are the same whatever came before. -/
theorem readAll_append (hLater : NoSemicolonAhead later) {tokens : List Token}
    (h : tokens = [] ∨ Terminated tokens) (hContent : ∀ token ∈ tokens, token.kind ≠ .eof) :
    readAll (tokens ++ later) = readAll tokens ++ readAll later := by
  fun_induction readAll tokens with
  | case1 => rfl
  | case2 first tokens hEof => exact absurd hEof (hContent first List.mem_cons_self)
  | case3 first tokens hEof ih =>
      have hTerminated : Terminated (first :: tokens) := by simpa using h
      have hSuffix := (read_suffix first tokens).trans (List.suffix_cons first tokens)
      have hLeft : ∀ token ∈ (Attempt.read first tokens).2, token.kind ≠ .eof :=
        fun token hToken => hContent token (hSuffix.mem hToken)
      rw [List.cons_append, readAll_cons hEof, read_append hLater hTerminated, List.cons_append]
      exact congrArg _ (ih (hTerminated.of_suffix hSuffix) hLeft)

end Attempt

namespace Program

open Attempt

/-- The first token of a source is what the lexer delivers first. -/
theorem noSemicolonAhead_stream {source : String}
    (h : (Lexer.ofString source).next.1.kind ≠ .symbol .semicolon) :
    NoSemicolonAhead (Lexer.stream (Text.bytes source)) := by
  intro token hToken
  rw [Lexer.next_ofString, List.headD_eq_head?_getD, Option.mem_def.mp hToken] at h
  exact h

/-- The attempts at the statements of a source end at a semicolon in it. -/
theorem attempts_append_semicolon {before after : String} (hNul : '\x00' ∉ before.toList)
    (hAfter : (Lexer.ofString after).next.1.kind ≠ .symbol .semicolon) :
    attempts (before ++ ";" ++ after) = attempts (before ++ ";") ++ attempts after := by
  have hStream (rest : List UInt8) :
      Lexer.stream (Text.bytes before ++ (Text.bytes ";" ++ rest)) =
        Lexer.stream (Text.bytes before) ++ [.ofSymbol .semicolon] ++ Lexer.stream rest := by
    rw [List.append_assoc, List.singleton_append, ← Lexer.stream_semicolon_append rest]
    exact Lexer.stream_append_break _ (by decide) rest
  have hAlone := hStream []
  rw [List.append_nil, Lexer.stream_nil, List.append_nil] at hAlone
  have hTerminated :
      Terminated (Lexer.stream (Text.bytes before) ++ [.ofSymbol .semicolon]) := ⟨_, rfl⟩
  have hContent : ∀ token ∈ Lexer.stream (Text.bytes before) ++ [.ofSymbol .semicolon],
      token.kind ≠ .eof := by
    intro token hToken
    rcases List.mem_append.mp hToken with hToken | hToken
    · exact Lexer.kind_ne_eof_of_mem_stream (mt (Text.zero_mem_bytes_iff before).mp hNul) hToken
    · obtain rfl := List.mem_singleton.mp hToken
      simp
  rw [attempts, attempts, attempts, Text.bytes_append, Text.bytes_append, List.append_assoc,
    hStream, hAlone]
  exact readAll_append (noSemicolonAhead_stream hAfter) (.inr hTerminated) hContent

/-- What is wrong before a semicolon stays before it. A source without NUL, a
semicolon and a source that starts with no other give the statements and the
diagnostics of the first up to the semicolon, and behind them those of the second. -/
theorem parse_append_semicolon {before after : String} (hNul : '\x00' ∉ before.toList)
    (hAfter : (Lexer.ofString after).next.1.kind ≠ .symbol .semicolon) :
    parse (before ++ ";" ++ after) =
      (⟨(parse (before ++ ";")).1.statements ++ (parse after).1.statements⟩,
        (parse (before ++ ";")).2 ++ (parse after).2) := by
  rw [parse_eq, parse_eq, parse_eq, attempts_append_semicolon hNul hAfter, List.filterMap_append,
    List.filterMap_append]

/-- A binding without its `=` is abandoned and its leftovers are read as statements of their
own, up to the semicolon. What is behind it is read as if it stood alone. -/
theorem parse_append_semicolon_malformed_binding :
    parse ("let x 5 @" ++ ";" ++ "y") =
        (⟨[.expression ⟨.int, "5"⟩ (some (.integer ⟨.int, "5"⟩ 5)),
            .expression ⟨.illegal, "@"⟩ none,
            .expression ⟨.ident, "y"⟩ (some (.name (.ofToken ⟨.ident, "y"⟩)))]⟩,
          [.unexpected (.symbol .assign) .int, .noOperand .illegal]) ∧
      parse ("let x 5 @" ++ ";" ++ "y") =
        (⟨(parse ("let x 5 @" ++ ";")).1.statements ++ (parse "y").1.statements⟩,
          (parse ("let x 5 @" ++ ";")).2 ++ (parse "y").2) :=
  ⟨by decide +kernel, parse_append_semicolon (by decide) (by decide)⟩

end Program

end LetLang
