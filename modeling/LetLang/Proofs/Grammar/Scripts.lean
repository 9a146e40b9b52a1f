import Mathlib.Tactic.FinCases
import LetLang.Program.Parser
import LetLang.Proofs.Grammar.Phrases

/-! Reading scripts. The sentences of a grammatical script are read one after
another as their trees, if no value needs too many levels of nesting, and
otherwise one of them is read with a diagnostic. Whatever is read without a
diagnostic is the tree of such a script. -/
namespace LetLang

open Phrase (Stops)

namespace Phrase

/-- A phrase starts with an operand or with what comes before one. -/
theorem Grammatical.first_cases {phrase : Phrase} (h : phrase.Grammatical) :
    phrase.first.kind = .ident ∨ phrase.first.kind = .int ∨
      ∃ symbol ∈ [Symbol.bang, .minus, .openParen], phrase.first = .ofSymbol symbol := by
  induction h with
  | name word => exact .inl rfl
  | integer hValue => exact .inr (.inl rfl)
  | @unary operator operand hOperator hOperand hSimple ih =>
      refine .inr (.inr ⟨operator, ?_, rfl⟩)
      rcases List.mem_cons.mp hOperator with rfl | hMinus
      · decide
      · obtain rfl := List.mem_singleton.mp hMinus
        decide
  | group hInner ih => exact .inr (.inr ⟨.openParen, by decide, rfl⟩)
  | binary hOperator hLeft hRight hLeftBinds hRightBinds ihLeft ihRight => exact ihLeft

/-- No phrase starts with a keyword, so a keyword in front always opens a statement. -/
theorem Grammatical.first_ne_keyword {phrase : Phrase} (h : phrase.Grammatical)
    (keyword : Keyword) : phrase.first.kind ≠ .keyword keyword := by
  rcases h.first_cases with hKind | hKind | ⟨symbol, -, hFirst⟩
  · simp [hKind]
  · simp [hKind]
  · simp [hFirst, Token.ofSymbol]

end Phrase

namespace Attempt

/-- Whatever starts with no keyword is attempted as an expression, from that token on. -/
theorem read_of_ne_keyword {first : Token} (h : ∀ keyword, first.kind ≠ .keyword keyword)
    (tokens : List Token) :
    read first tokens =
      finish (.expression first) (Expr.read Expr.nestingLimit .lowest (first :: tokens)) := by
  unfold read
  split
  · next hKind => exact absurd hKind (h _)
  · next hKind => exact absurd hKind (h _)
  · rfl

/-- A statement is attempted at any token but an end of input, a semicolon among them. -/
theorem readAll_cons {first : Token} (h : first.kind ≠ .eof) (tokens : List Token) :
    readAll (first :: tokens) = (read first tokens).1 :: readAll (read first tokens).2 := by
  rw [readAll, if_neg h]

/-- The tokens are used up, or an end of input comes next. -/
def AtEnd (tokens : List Token) : Prop := ∀ token ∈ tokens.head?, token.kind = .eof

theorem atEnd_nil : AtEnd [] := by
  intro token hToken
  cases hToken

theorem atEnd_cons {token : Token} (h : token.kind = .eof) (rest : List Token) :
    AtEnd (token :: rest) := by
  intro first hFirst
  obtain rfl : token = first := Option.some.inj hFirst
  exact h

/-- Past the end there are only ends of input, so one comes next in any case. -/
theorem AtEnd.kind_headD {tokens : List Token} (h : AtEnd tokens) :
    (tokens.headD .eof).kind = .eof := by
  cases tokens with
  | nil => rfl
  | cons token rest => exact h token rfl

theorem readAll_of_atEnd {tokens : List Token} (h : AtEnd tokens) : readAll tokens = [] := by
  cases tokens with
  | nil => rw [readAll]
  | cons token rest => rw [readAll, if_pos (h token rfl)]

/-- Tokens that do not start with a semicolon. -/
def NoSemicolonAhead (tokens : List Token) : Prop :=
  ∀ token ∈ tokens.head?, token.kind ≠ .symbol .semicolon

/-- The semicolon of a statement is optional, and no other token is dropped for it. -/
theorem dropSemicolon_of_noSemicolonAhead {tokens : List Token} (h : NoSemicolonAhead tokens) :
    dropSemicolon tokens = tokens := by
  cases tokens with
  | nil => rfl
  | cons token rest => exact if_neg (h token rfl)

end Attempt

namespace Sentence

open Attempt

/-- What follows a sentence neither continues its value nor is the semicolon
that the sentence does not have. -/
def EndsBefore (sentence : Sentence) (rest : List Token) : Prop :=
  sentence.terminated = false → Stops .lowest rest ∧ NoSemicolonAhead rest

/-- A value ends in front of its semicolon, or without one in front of what follows. -/
theorem EndsBefore.stops {sentence : Sentence} {rest : List Token}
    (h : sentence.EndsBefore rest) : Stops .lowest (sentence.ending ++ rest) := by
  unfold ending
  split
  · exact Phrase.stops_cons (Nat.not_lt_zero _) rest
  · next hOpen => exact (h (by simpa using hOpen)).1

/-- The sentence's own semicolon is dropped, and not one of what follows. -/
theorem EndsBefore.dropSemicolon_eq {sentence : Sentence} {rest : List Token}
    (h : sentence.EndsBefore rest) : dropSemicolon (sentence.ending ++ rest) = rest := by
  unfold ending
  split
  · rfl
  · next hOpen => exact dropSemicolon_of_noSemicolonAhead (h (by simpa using hOpen)).2

/-- The attempt at the value of a sentence, with the tokens from the value on. -/
def attempt (sentence : Sentence) (tokens : List Token) : Attempt × List Token :=
  finish (sentence.opening.statement sentence.first)
    (Expr.read Expr.nestingLimit .lowest tokens)

/-- The opening of a sentence is always read, and leads to its value. -/
theorem readAll_tokens_append {sentence : Sentence} (hValue : sentence.value.Grammatical)
    (rest : List Token) :
    readAll (sentence.tokens ++ rest) =
      let attempted := sentence.attempt (sentence.value.tokens ++ (sentence.ending ++ rest))
      attempted.1 :: readAll attempted.2 := by
  obtain ⟨opening, value, terminated⟩ := sentence
  rw [tokens, List.append_assoc, List.append_assoc]
  cases opening with
  | binding name =>
      refine (readAll_cons (by decide) _).trans ?_
      rfl
  | result =>
      refine (readAll_cons (by decide) _).trans ?_
      rfl
  | bare =>
      obtain ⟨later, hTokens⟩ := value.tokens_eq_first_cons
      have hEof : value.first.kind ≠ .eof := by
        rcases hValue.first_cases with hKind | hKind | ⟨symbol, -, hFirst⟩
        · simp [hKind]
        · simp [hKind]
        · simp [hFirst, Token.ofSymbol]
      rw [Opening.tokens, List.nil_append, hTokens, List.cons_append,
        readAll_cons hEof, read_of_ne_keyword hValue.first_ne_keyword]
      rfl

/-- With levels enough the value of a sentence is read whole, its semicolon is dropped, and
what follows is left. -/
theorem attempt_complete {sentence : Sentence} (hValue : sentence.value.Grammatical)
    (hNeed : sentence.value.need ≤ Expr.nestingLimit) {rest : List Token}
    (hRest : sentence.EndsBefore rest) :
    sentence.attempt (sentence.value.tokens ++ (sentence.ending ++ rest)) =
      (complete sentence.tree, rest) := by
  rw [attempt, Expr.readsPhrases _ _ _ _ hValue hValue.above_lowest hRest.stops hNeed, finish,
    hRest.dropSemicolon_eq]
  rfl

/-- With levels too few the attempt has a diagnostic. What it leaves is not said. -/
theorem attempt_fails {sentence : Sentence} (hValue : sentence.value.Grammatical)
    (hNeed : Expr.nestingLimit < sentence.value.need) {rest : List Token}
    (hRest : sentence.EndsBefore rest) :
    (sentence.attempt
      (sentence.value.tokens ++ (sentence.ending ++ rest))).1.diagnostic? ≠ none := by
  obtain ⟨cause, left, hFailed⟩ :=
    Expr.failsPhrases _ _ _ _ hValue hValue.above_lowest hRest.stops hNeed
  rw [attempt, hFailed]
  exact Option.some_ne_none cause

theorem tokens_eq_first_cons (sentence : Sentence) :
    ∃ rest, sentence.tokens = sentence.first :: rest := by
  obtain ⟨opening, value, terminated⟩ := sentence
  cases opening with
  | bare =>
      obtain ⟨rest, hValue⟩ := value.tokens_eq_first_cons
      exact ⟨rest ++ ending ⟨.bare, value, terminated⟩, by rw [tokens, hValue]; rfl⟩
  | _ => exact ⟨_, rfl⟩

/-- No sentence starts with a semicolon, a closing parenthesis or a binary operator,
except for the minus. -/
theorem first_cases {sentence : Sentence} (hValue : sentence.value.Grammatical) :
    (∃ keyword, sentence.first.kind = .keyword keyword) ∨ sentence.first.kind = .ident ∨
      sentence.first.kind = .int ∨
        ∃ symbol ∈ [Symbol.bang, .minus, .openParen], sentence.first = .ofSymbol symbol := by
  obtain ⟨opening, value, terminated⟩ := sentence
  cases opening with
  | bare => exact .inr hValue.first_cases
  | _ => exact .inl ⟨_, rfl⟩

/-- Only a minus could continue the sentence before it. -/
theorem endsBefore_sentence (sentence : Sentence) {next : Sentence}
    (hNext : next.value.Grammatical)
    (hMinus : sentence.terminated = false → next.first ≠ .ofSymbol .minus) (rest : List Token) :
    sentence.EndsBefore (next.tokens ++ rest) := by
  intro hOpen
  obtain ⟨later, hTokens⟩ := next.tokens_eq_first_cons
  have hFirst : ¬ Precedence.lowest < Precedence.ofKind next.first.kind ∧
      next.first.kind ≠ .symbol .semicolon := by
    rcases first_cases hNext with ⟨keyword, hKind⟩ | hKind | hKind | ⟨symbol, hMem, hSymbol⟩
    · exact ⟨by rw [hKind]; exact Nat.not_lt_zero _, by simp [hKind]⟩
    · exact ⟨by rw [hKind]; exact Nat.not_lt_zero _, by simp [hKind]⟩
    · exact ⟨by rw [hKind]; exact Nat.not_lt_zero _, by simp [hKind]⟩
    · rw [hSymbol]
      fin_cases hMem
      · decide
      · exact absurd hSymbol (hMinus hOpen)
      · decide
  rw [hTokens]
  refine ⟨Phrase.stops_cons hFirst.1 _, ?_⟩
  intro token hToken
  obtain rfl : next.first = token := Option.some.inj hToken
  exact hFirst.2

/-- A sentence without a semicolon that ends before another is not followed by a minus. -/
theorem EndsBefore.first_ne_minus {sentence next : Sentence} {rest : List Token}
    (h : sentence.EndsBefore (next.tokens ++ rest)) (hOpen : sentence.terminated = false) :
    next.first ≠ .ofSymbol .minus := by
  intro hMinus
  obtain ⟨later, hTokens⟩ := next.tokens_eq_first_cons
  rw [hTokens, hMinus] at h
  exact (h hOpen).1 _ rfl (by decide)

/-- The last sentence needs no semicolon. -/
theorem endsBefore_of_atEnd (sentence : Sentence) {rest : List Token} (hRest : AtEnd rest) :
    sentence.EndsBefore rest := by
  intro hOpen
  constructor
  · intro token hToken
    rw [hRest token hToken]
    exact Nat.not_lt_zero _
  · intro token hToken
    simp [hRest token hToken]

/-- A sentence that was read from the front of some tokens. -/
structure ReadAs (tokens rest : List Token) (sentence : Sentence) : Prop where
  grammatical : sentence.value.Grammatical
  need_le : sentence.value.need ≤ Expr.nestingLimit
  tokens_eq : tokens = sentence.tokens ++ rest
  endsBefore : sentence.EndsBefore rest

/-- A statement finished without a diagnostic has the value of a phrase, and
the phrase reaches up to what is left or to the semicolon before it. -/
theorem exists_value (opening : Opening) {first : Token} {tokens : List Token}
    (hSpelled : ∀ token ∈ tokens, token.Spelled) {attempted : Attempt × List Token}
    (h : finish (opening.statement first) (Expr.read Expr.nestingLimit .lowest tokens) = attempted)
    (hComplete : attempted.1.diagnostic? = none) :
    ∃ value terminated,
      ReadAs (opening.tokens ++ tokens) attempted.2 ⟨opening, value, terminated⟩ ∧
        attempted.1 = complete (opening.statement first (some value.tree)) := by
  cases hRead : Expr.read Expr.nestingLimit .lowest tokens with
  | failed cause rest =>
      rw [hRead] at h
      subst h
      cases hComplete
  | found tree rest =>
      obtain ⟨value, hValue, rfl⟩ := Expr.readsOnlyPhrases _ _ _ _ _ hSpelled hRead
      rw [hRead] at h
      subst h
      have hTokens := hValue.tokens_eq
      by_cases hSemicolon : ∃ later, rest = .ofSymbol .semicolon :: later
      · obtain ⟨later, rfl⟩ := hSemicolon
        refine ⟨value, true, ⟨hValue.grammatical, hValue.need_le, ?_, by rintro ⟨⟩⟩, rfl⟩
        rw [hTokens]
        simp [Sentence.tokens, ending, finish, dropSemicolon, Token.ofSymbol]
      · have hOther : NoSemicolonAhead rest := by
          intro token hToken hKind
          obtain ⟨later, rfl⟩ := List.head?_eq_some_iff.mp hToken
          have hMem : token ∈ tokens := hTokens ▸ List.mem_append_right _ List.mem_cons_self
          exact hSemicolon ⟨later, by rw [(hSpelled token hMem).eq_ofSymbol hKind]⟩
        have hDrop := dropSemicolon_of_noSemicolonAhead hOther
        refine ⟨value, false, ⟨hValue.grammatical, hValue.need_le, ?_, ?_⟩, rfl⟩
        · rw [hTokens, finish, hDrop]
          simp [Sentence.tokens, ending]
        · rw [finish, hDrop]
          exact fun _ => ⟨hValue.stops, hOther⟩

/-- A binding read without a diagnostic has a name, an equals sign and a value. -/
theorem exists_binding {tokens : List Token} (hSpelled : ∀ token ∈ tokens, token.Spelled)
    (hComplete : (readBinding (.ofKeyword .letWord) tokens).1.diagnostic? = none) :
    ∃ sentence, ReadAs (.ofKeyword .letWord :: tokens)
        (readBinding (.ofKeyword .letWord) tokens).2 sentence ∧
      (readBinding (.ofKeyword .letWord) tokens).1 = complete sentence.tree := by
  unfold readBinding at hComplete ⊢
  split at hComplete
  · cases hComplete
  · next name behind hName =>
      obtain ⟨rfl, hNameKind⟩ := Reading.expect_eq_found hName
      split at hComplete
      · cases hComplete
      · next assign rest hAssign =>
          obtain ⟨rfl, hAssignKind⟩ := Reading.expect_eq_found hAssign
          have hAssignMem : assign ∈ name :: assign :: rest :=
            List.mem_cons_of_mem _ List.mem_cons_self
          obtain rfl := (hSpelled assign hAssignMem).eq_ofSymbol hAssignKind
          obtain ⟨kind, literal⟩ := name
          obtain rfl : kind = .ident := hNameKind
          have hRest : ∀ token ∈ rest, token.Spelled := fun token hMem =>
            hSpelled token (List.mem_cons_of_mem _ (List.mem_cons_of_mem _ hMem))
          obtain ⟨value, terminated, hRead, hTree⟩ :=
            exists_value (.binding literal) hRest rfl hComplete
          exact ⟨_, hRead, hTree⟩

/-- A statement read without a diagnostic is the tree of a sentence. -/
theorem exists_sentence {first : Token} {tokens : List Token}
    (hSpelled : ∀ token ∈ first :: tokens, token.Spelled)
    (hComplete : (Attempt.read first tokens).1.diagnostic? = none) :
    ∃ sentence, ReadAs (first :: tokens) (Attempt.read first tokens).2 sentence ∧
      (Attempt.read first tokens).1 = complete sentence.tree := by
  have hFirst := hSpelled first List.mem_cons_self
  have hTokens : ∀ token ∈ tokens, token.Spelled :=
    fun token hMem => hSpelled token (List.mem_cons_of_mem _ hMem)
  unfold Attempt.read at hComplete ⊢
  split at hComplete
  · next hKind =>
      obtain rfl := hFirst.eq_ofKeyword hKind
      exact exists_binding hTokens hComplete
  · next hKind =>
      obtain rfl := hFirst.eq_ofKeyword hKind
      obtain ⟨value, terminated, hRead, hTree⟩ := exists_value .result hTokens rfl hComplete
      exact ⟨_, hRead, hTree⟩
  · next hLet hReturn =>
      obtain ⟨value, terminated, hRead, hTree⟩ := exists_value .bare hSpelled rfl hComplete
      obtain ⟨later, hValue⟩ := value.tokens_eq_first_cons
      have hHead : first = value.first := by
        have hTokensEq := hRead.tokens_eq
        simp only [Opening.tokens, List.nil_append, Sentence.tokens, hValue,
          List.cons_append] at hTokensEq
        exact (List.cons.inj hTokensEq).1
      refine ⟨_, hRead, hTree.trans ?_⟩
      rw [hHead]
      rfl

end Sentence

namespace Script

open Attempt

theorem tokens_cons (sentence : Sentence) (later : List Sentence) :
    tokens ⟨sentence :: later⟩ = sentence.tokens ++ tokens ⟨later⟩ := List.flatMap_cons

theorem Grammatical.tail {sentence : Sentence} {later : List Sentence}
    (h : Grammatical ⟨sentence :: later⟩) : Grammatical ⟨later⟩ :=
  ⟨fun next hNext => h.values next (List.mem_cons_of_mem _ hNext), h.separated.tail⟩

/-- In a grammatical script each sentence ends before the next. -/
theorem Grammatical.endsBefore {sentence : Sentence} {later : List Sentence}
    (h : Grammatical ⟨sentence :: later⟩) {rest : List Token} (hRest : AtEnd rest) :
    sentence.EndsBefore (tokens ⟨later⟩ ++ rest) := by
  cases later with
  | nil => exact sentence.endsBefore_of_atEnd hRest
  | cons next later =>
      have hNext := h.values next (List.mem_cons_of_mem _ List.mem_cons_self)
      have hMinus := (List.isChain_cons_cons.mp h.separated).1
      rw [tokens_cons, List.append_assoc]
      exact sentence.endsBefore_sentence hNext hMinus _

/-- A grammatical script within the limit is read completely, as its tree. -/
theorem readAll_tokens {script : Script} (hScript : script.Grammatical)
    (hLimit : script.WithinLimit) {rest : List Token} (hRest : AtEnd rest) :
    readAll (script.tokens ++ rest) = script.tree.statements.map complete := by
  obtain ⟨sentences⟩ := script
  induction sentences with
  | nil => exact readAll_of_atEnd hRest
  | cons sentence later ih =>
      have hValue := hScript.values sentence List.mem_cons_self
      have hNeed := hLimit sentence List.mem_cons_self
      have hLater := ih hScript.tail fun next hNext => hLimit next (List.mem_cons_of_mem _ hNext)
      rw [tokens_cons, List.append_assoc, Sentence.readAll_tokens_append hValue]
      dsimp only
      rw [Sentence.attempt_complete hValue hNeed (hScript.endsBefore hRest)]
      exact congrArg _ hLater

/-- A grammatical script beyond the limit is read with a diagnostic. -/
theorem exists_diagnostic {script : Script} (hScript : script.Grammatical)
    (hLimit : ¬ script.WithinLimit) {rest : List Token} (hRest : AtEnd rest) :
    ∃ attempt ∈ readAll (script.tokens ++ rest), attempt.diagnostic? ≠ none := by
  obtain ⟨sentences⟩ := script
  induction sentences with
  | nil => exact absurd (fun sentence hSentence => by cases hSentence) hLimit
  | cons sentence later ih =>
      have hValue := hScript.values sentence List.mem_cons_self
      have hEnds := hScript.endsBefore hRest
      rw [tokens_cons, List.append_assoc, Sentence.readAll_tokens_append hValue]
      by_cases hNeed : sentence.value.need ≤ Expr.nestingLimit
      · have hLater : ¬ WithinLimit ⟨later⟩ := by
          intro hWithin
          refine hLimit fun next hNext => ?_
          rcases List.mem_cons.mp hNext with rfl | hNext
          · exact hNeed
          · exact hWithin next hNext
        obtain ⟨attempt, hMem, hDiagnostic⟩ := ih hScript.tail hLater
        dsimp only
        rw [Sentence.attempt_complete hValue hNeed hEnds]
        exact ⟨attempt, List.mem_cons_of_mem _ hMem, hDiagnostic⟩
      · exact ⟨_, List.mem_cons_self,
          Sentence.attempt_fails hValue (Nat.lt_of_not_le hNeed) hEnds⟩

/-- A sentence can be put in front of a script where it ends before the script starts. -/
theorem Grammatical.cons {sentence : Sentence} {script : Script} {rest : List Token}
    (h : script.Grammatical) (hValue : sentence.value.Grammatical)
    (hEnds : sentence.EndsBefore (script.tokens ++ rest)) :
    Grammatical ⟨sentence :: script.sentences⟩ := by
  obtain ⟨sentences⟩ := script
  refine ⟨?_, ?_⟩
  · intro next hNext
    rcases List.mem_cons.mp hNext with rfl | hNext
    · exact hValue
    · exact h.values next hNext
  · cases sentences with
    | nil => exact List.isChain_singleton _
    | cons next later =>
        rw [tokens_cons, List.append_assoc] at hEnds
        exact List.isChain_cons_cons.mpr ⟨hEnds.first_ne_minus, h.separated⟩

/-- What is read without any diagnostic is a grammatical script within the
limit, up to the end of the tokens or to an end of input among them. -/
theorem exists_script {tokens : List Token} (hSpelled : ∀ token ∈ tokens, token.Spelled)
    (hComplete : ∀ attempt ∈ readAll tokens, attempt.diagnostic? = none) :
    ∃ script rest, Grammatical script ∧ script.WithinLimit ∧ tokens = script.tokens ++ rest ∧
      AtEnd rest ∧ readAll tokens = script.tree.statements.map complete := by
  fun_induction readAll tokens with
  | case1 => exact ⟨⟨[]⟩, [], ⟨by simp, by simp⟩, by simp [WithinLimit], rfl, atEnd_nil, rfl⟩
  | case2 first tokens hEof =>
      exact ⟨⟨[]⟩, first :: tokens, ⟨by simp, by simp⟩, by simp [WithinLimit], rfl,
        atEnd_cons hEof tokens, rfl⟩
  | case3 first tokens hEof ih =>
      obtain ⟨sentence, hRead, hTree⟩ :=
        Sentence.exists_sentence hSpelled (hComplete _ List.mem_cons_self)
      have hRest : ∀ token ∈ (Attempt.read first tokens).2, token.Spelled := by
        intro token hMem
        apply hSpelled token
        rw [hRead.tokens_eq]
        exact List.mem_append_right _ hMem
      obtain ⟨script, rest, hScript, hLimit, hTokens, hEnd, hAll⟩ :=
        ih hRest fun attempt hMem => hComplete attempt (List.mem_cons_of_mem _ hMem)
      have hEnds := hRead.endsBefore
      rw [hTokens] at hEnds
      refine ⟨⟨sentence :: script.sentences⟩, rest, hScript.cons hRead.grammatical hEnds, ?_, ?_,
        hEnd, ?_⟩
      · intro next hNext
        rcases List.mem_cons.mp hNext with rfl | hNext
        · exact hRead.need_le
        · exact hLimit next hNext
      · rw [hRead.tokens_eq, hTokens, tokens_cons, List.append_assoc]
      · rw [hTree, hAll]
        rfl

end Script

end LetLang
