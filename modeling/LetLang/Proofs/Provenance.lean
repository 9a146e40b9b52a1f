import LetLang.Proofs.Canonical.Reparsing

/-! Provenance. Every node of a program keeps the token it was made from, and
says of itself what that token says. Read from left to right, the tokens of a
program are tokens of the source in their order, each used at most once; what
is wrong with a source only leaves more of them out. -/
namespace LetLang

/-- A name is an identifier and is called what its token spells. -/
def Name.Labelled (name : Name) : Prop :=
  name.token.kind = .ident ∧ name.value = name.token.literal

namespace Expr

/-- The tokens of a tree from left to right. -/
def tokens : Expr → List Token
  | name n => [n.token]
  | integer token _ => [token]
  | unary token _ operand => token :: operand.tokens
  | binary token left _ right => left.tokens ++ token :: right.tokens

/-- Every node has a token of its kind, and the name, value or operator that
the literal of the token gives. -/
def Labelled : Expr → Prop
  | name n => n.Labelled
  | integer token value =>
      token.kind = .int ∧ (Numeral.value? token.literal).map Int.ofNat = some value
  | unary token operator operand =>
      (∃ symbol ∈ Symbol.unaryOperators, token.kind = .symbol symbol) ∧
        operator = token.literal ∧ operand.Labelled
  | binary token left operator right =>
      (∃ symbol ∈ Symbol.binaryOperators, token.kind = .symbol symbol) ∧
        operator = token.literal ∧ left.Labelled ∧ right.Labelled

end Expr

namespace Statement

/-- An absent value has no tokens. -/
def valueTokens : Option Expr → List Token
  | none => []
  | some value => value.tokens

/-- The tokens of a statement from left to right. The first token of an
expression statement is one of its value, or of a group around it. -/
def tokens : Statement → List Token
  | binding keyword name value => keyword :: name.token :: valueTokens value
  | result keyword value => keyword :: valueTokens value
  | expression _ value => valueTokens value

def Labelled : Statement → Prop
  | binding keyword name value =>
      keyword.kind = .keyword .letWord ∧ name.Labelled ∧ ∀ expr ∈ value, expr.Labelled
  | result keyword value =>
      keyword.kind = .keyword .returnWord ∧ ∀ expr ∈ value, expr.Labelled
  | expression _ value => ∀ expr ∈ value, expr.Labelled

end Statement

/-- The tokens of a program from left to right. -/
def Program.tokens (program : Program) : List Token :=
  program.statements.flatMap Statement.tokens

/-- Symbols that leave no node: groups, ends of statements, and the sign of a binding. -/
def Symbol.punctuation : List Symbol := [openParen, closeParen, semicolon, assign]

/-- Whether a token stands in the tree that it is read into. -/
def Token.isNode (token : Token) : Bool := token.kind ∉ Symbol.punctuation.map Kind.symbol

/-- No operator is punctuation. -/
theorem Token.isNode_of_operator {operator : Symbol}
    (h : operator ∈ Symbol.unaryOperators ++ Symbol.binaryOperators) :
    (ofSymbol operator).isNode = true := by
  cases operator <;> first | decide | exact absurd h (by decide)

namespace Phrase

/-- By induction on the phrase: each node is made of the token that it is then checked
against. -/
theorem Grammatical.labelled_tree {phrase : Phrase} (h : phrase.Grammatical) :
    phrase.tree.Labelled := by
  induction h with
  | name word => exact ⟨rfl, rfl⟩
  | integer hValue => exact ⟨rfl, congrArg (Option.map Int.ofNat) hValue⟩
  | unary hOperator hOperand hSimple ih => exact ⟨⟨_, hOperator, rfl⟩, rfl, ih⟩
  | group hInner ih => exact ih
  | binary hOperator hLeft hRight hLeftBinds hRightBinds ihLeft ihRight =>
      exact ⟨⟨_, hOperator, rfl⟩, rfl, ihLeft, ihRight⟩

/-- Between a phrase and its tree only the parentheses are lost. -/
theorem Grammatical.tokens_tree {phrase : Phrase} (h : phrase.Grammatical) :
    phrase.tree.tokens = phrase.tokens.filter Token.isNode := by
  induction h with
  | name word => rfl
  | integer hValue => rfl
  | unary hOperator hOperand hSimple ih =>
      have hNode := Token.isNode_of_operator (List.mem_append_left _ hOperator)
      rw [tree, Expr.tokens, tokens, List.filter_cons_of_pos hNode, ih]
  | group hInner ih =>
      have hClose : [Token.ofSymbol .closeParen].filter Token.isNode = [] := rfl
      rw [tree, tokens, List.filter_cons_of_neg (by decide), List.filter_append, hClose,
        List.append_nil, ih]
  | binary hOperator hLeft hRight hLeftBinds hRightBinds ihLeft ihRight =>
      have hNode := Token.isNode_of_operator (List.mem_append_right _ hOperator)
      rw [tree, Expr.tokens, tokens, List.filter_append, List.filter_cons_of_pos hNode, ihLeft,
        ihRight]

end Phrase

/-- The equals sign of a binding and the semicolon are lost as well. -/
theorem Sentence.tokens_tree {sentence : Sentence} (hValue : sentence.value.Grammatical) :
    sentence.tree.tokens = sentence.tokens.filter Token.isNode := by
  obtain ⟨opening, value, terminated⟩ := sentence
  have hEnding : (ending ⟨opening, value, terminated⟩).filter Token.isNode = [] := by
    cases terminated <;> rfl
  rw [tokens, List.filter_append, List.filter_append, hEnding, List.append_nil]
  rw [← hValue.tokens_tree]
  cases opening <;> rfl

/-- Nothing is lost between sentences. -/
theorem Script.tokens_tree {script : Script} (h : script.Grammatical) :
    script.tree.tokens = script.tokens.filter Token.isNode := by
  obtain ⟨sentences⟩ := script
  induction sentences with
  | nil => rfl
  | cons sentence later ih =>
      have hSentence := Sentence.tokens_tree (h.values sentence List.mem_cons_self)
      have hLater := ih h.tail
      rw [tokens_cons, List.filter_append, ← hSentence, ← hLater]
      exact List.flatMap_cons

/-- The tree of a phrase that stays within the limit of nesting. -/
def Expr.IsPhrase (expr : Expr) : Prop :=
  ∃ phrase : Phrase, phrase.Grammatical ∧ phrase.need ≤ nestingLimit ∧ phrase.tree = expr

/-- The tree of a phrase is labelled, so the labels of a value need not be carried along
with it. -/
theorem Expr.IsPhrase.labelled {expr : Expr} (h : expr.IsPhrase) : expr.Labelled := by
  obtain ⟨phrase, hPhrase, -, rfl⟩ := h
  exact hPhrase.labelled_tree

namespace Attempt

/-- The tokens of the statement, none if there is no statement. -/
def tokens (attempt : Attempt) : List Token :=
  attempt.statement?.elim [] Statement.tokens

/-- An attempt took tokens from the front of some and left others. Its statement
is made of what it took, and has the value of a phrase if it has one. -/
structure DrawnFrom (taken left : List Token) (attempt : Attempt) : Prop where
  labelled : ∀ statement ∈ attempt.statement?, statement.Labelled
  values : ∀ statement ∈ attempt.statement?, ∀ value ∈ statement.value, value.IsPhrase
  sublist : (attempt.tokens ++ left).Sublist taken

/-- An attempt may as well be drawn from more tokens than it takes. -/
theorem DrawnFrom.mono {attempt : Attempt} {taken more left : List Token}
    (h : attempt.DrawnFrom taken left) (hMore : taken.Sublist more) :
    attempt.DrawnFrom more left :=
  ⟨h.labelled, h.values, h.sublist.trans hMore⟩

theorem drawnFrom_abandoned (cause : Diagnostic) {taken left : List Token}
    (h : left.Sublist taken) : (abandoned cause).DrawnFrom taken left := by
  refine ⟨?_, ?_, h⟩
  · intro statement hStatement
    cases hStatement
  · intro statement hStatement
    cases hStatement

/-- A way to make a statement of a value: behind tokens of its own in front. -/
structure MadeFrom (front : List Token) (statement : Option Expr → Statement) : Prop where
  tokens_eq : ∀ value, (statement value).tokens = front ++ Statement.valueTokens value
  value_eq : ∀ value, (statement value).value = value
  labelled : ∀ value, (∀ expr ∈ value, expr.Labelled) → (statement value).Labelled

theorem madeFrom_binding {keyword name : Token} (hKeyword : keyword.kind = .keyword .letWord)
    (hName : name.kind = .ident) :
    MadeFrom [keyword, name] (.binding keyword (.ofToken name)) :=
  ⟨fun _ => rfl, fun _ => rfl, fun _ hValue => ⟨hKeyword, ⟨hName, rfl⟩, hValue⟩⟩

theorem madeFrom_result {keyword : Token} (hKeyword : keyword.kind = .keyword .returnWord) :
    MadeFrom [keyword] (.result keyword) :=
  ⟨fun _ => rfl, fun _ => rfl, fun _ hValue => ⟨hKeyword, hValue⟩⟩

/-- The token that an expression statement starts with belongs to its value, so there is
none in front. -/
theorem madeFrom_expression (first : Token) : MadeFrom [] (.expression first) :=
  ⟨fun _ => rfl, fun _ => rfl, fun _ hValue => hValue⟩

/-- Whatever comes of reading its value, a statement has the tokens in front of
the value, and those of the value if it was found. -/
theorem drawnFrom_finish {front tokens : List Token} {statement : Option Expr → Statement}
    (hMade : MadeFrom front statement) (hSpelled : ∀ token ∈ tokens, token.Spelled) :
    let attempted := finish statement (Expr.read Expr.nestingLimit .lowest tokens)
    attempted.1.DrawnFrom (front ++ tokens) attempted.2 := by
  cases hRead : Expr.read Expr.nestingLimit .lowest tokens with
  | failed cause rest =>
      have hRest : rest <:+ tokens := by
        have hTail := Expr.rest_read_suffix Expr.nestingLimit .lowest tokens
        rw [hRead] at hTail
        exact hTail.trans (List.tail_suffix tokens)
      refine ⟨?_, ?_, ?_⟩
      · rintro _ ⟨⟩
        exact hMade.labelled none (by simp)
      · rintro _ ⟨⟩
        rw [hMade.value_eq]
        simp
      · have hNone : (incomplete (statement none) cause).tokens = front :=
          (hMade.tokens_eq none).trans (List.append_nil front)
        simp only [finish, hNone]
        exact ((dropSemicolon_suffix rest).trans hRest).sublist.append_left front
  | found value rest =>
      obtain ⟨phrase, hPhrase, rfl⟩ := Expr.readsOnlyPhrases _ _ _ _ _ hSpelled hRead
      have hValue : ∀ expr ∈ some phrase.tree, expr.IsPhrase := by
        rintro _ ⟨⟩
        exact ⟨phrase, hPhrase.grammatical, hPhrase.need_le, rfl⟩
      refine ⟨?_, ?_, ?_⟩
      · rintro _ ⟨⟩
        exact hMade.labelled _ fun expr hExpr => (hValue expr hExpr).labelled
      · rintro _ ⟨⟩
        rw [hMade.value_eq]
        exact hValue
      · have hSome : (complete (statement (some phrase.tree))).tokens =
            front ++ phrase.tokens.filter Token.isNode := by
          rw [← hPhrase.grammatical.tokens_tree]
          exact hMade.tokens_eq (some phrase.tree)
        simp only [finish, hSome]
        rw [hPhrase.tokens_eq, List.append_assoc]
        exact (List.filter_sublist.append (dropSemicolon_suffix rest).sublist).append_left front

/-- An abandoned binding has drawn nothing, though it has passed over tokens. -/
theorem drawnFrom_readBinding {keyword : Token} (hKeyword : keyword.kind = .keyword .letWord)
    {tokens : List Token} (hSpelled : ∀ token ∈ tokens, token.Spelled) :
    (readBinding keyword tokens).1.DrawnFrom (keyword :: tokens)
      (readBinding keyword tokens).2 := by
  have hLeft := (readBinding_suffix keyword tokens).sublist.cons keyword
  unfold readBinding at hLeft ⊢
  split at hLeft
  · exact drawnFrom_abandoned _ hLeft
  · next name behind hName =>
      obtain ⟨rfl, hNameKind⟩ := Reading.expect_eq_found hName
      split at hLeft
      · exact drawnFrom_abandoned _ hLeft
      · next assign rest hAssign =>
          obtain ⟨rfl, -⟩ := Reading.expect_eq_found hAssign
          have hRest : ∀ token ∈ rest, token.Spelled := fun token hMem =>
            hSpelled token (List.mem_cons_of_mem _ (List.mem_cons_of_mem _ hMem))
          refine (drawnFrom_finish (madeFrom_binding hKeyword hNameKind) hRest).mono ?_
          exact ((List.sublist_cons_self assign rest).cons_cons name).cons_cons keyword

/-- One case for each kind of statement, which differ in the tokens in front of the
value. -/
theorem drawnFrom_read {first : Token} {tokens : List Token}
    (hSpelled : ∀ token ∈ first :: tokens, token.Spelled) :
    (Attempt.read first tokens).1.DrawnFrom (first :: tokens) (Attempt.read first tokens).2 := by
  have hTokens : ∀ token ∈ tokens, token.Spelled :=
    fun token hMem => hSpelled token (List.mem_cons_of_mem _ hMem)
  unfold Attempt.read
  split
  · next hKind => exact drawnFrom_readBinding hKind hTokens
  · next hKind => exact drawnFrom_finish (madeFrom_result hKind) hTokens
  · exact drawnFrom_finish (madeFrom_expression first) hSpelled

/-- Which of the tokens the attempt was drawn from is left open here. -/
theorem exists_drawnFrom_of_mem_readAll {tokens : List Token}
    (hSpelled : ∀ token ∈ tokens, token.Spelled) {attempt : Attempt}
    (hAttempt : attempt ∈ readAll tokens) : ∃ taken left, attempt.DrawnFrom taken left := by
  fun_induction readAll tokens with
  | case1 => cases hAttempt
  | case2 first tokens hEof => cases hAttempt
  | case3 first tokens hEof ih =>
      have hSuffix := (read_suffix first tokens).trans (List.suffix_cons first tokens)
      rcases List.mem_cons.mp hAttempt with rfl | hLater
      · exact ⟨_, _, drawnFrom_read hSpelled⟩
      · exact ih (fun token hToken => hSpelled token (hSuffix.mem hToken)) hLater

/-- One after another, the attempts draw on tokens that come ever later. -/
theorem flatMap_tokens_readAll_sublist {tokens : List Token}
    (hSpelled : ∀ token ∈ tokens, token.Spelled) :
    ((readAll tokens).flatMap Attempt.tokens).Sublist tokens := by
  fun_induction readAll tokens with
  | case1 => exact List.nil_sublist _
  | case2 first tokens hEof => exact List.nil_sublist _
  | case3 first tokens hEof ih =>
      have hSuffix := (read_suffix first tokens).trans (List.suffix_cons first tokens)
      have hLater := ih fun token hToken => hSpelled token (hSuffix.mem hToken)
      rw [List.flatMap_cons]
      exact (hLater.append_left _).trans (drawnFrom_read hSpelled).sublist

end Attempt

namespace Program

open Attempt

/-- Every statement of a program came of an attempt. -/
theorem exists_drawnFrom_of_mem_statements {source : String} {statement : Statement}
    (h : statement ∈ (parse source).1.statements) :
    ∃ attempt taken left, Attempt.DrawnFrom taken left attempt ∧
      attempt.statement? = some statement := by
  rw [parse_eq] at h
  obtain ⟨attempt, hAttempt, hStatement⟩ := List.mem_filterMap.mp h
  obtain ⟨taken, left, hDrawn⟩ :=
    exists_drawnFrom_of_mem_readAll (fun token => Lexer.spelled_of_mem_stream) hAttempt
  exact ⟨attempt, taken, left, hDrawn, hStatement⟩

/-- Abandoned attempts add no tokens to a program. -/
theorem tokens_eq_flatMap_attempts (source : String) :
    (parse source).1.tokens = (attempts source).flatMap Attempt.tokens := by
  rw [parse_eq, tokens]
  induction attempts source with
  | nil => rfl
  | cons attempt later ih =>
      rw [List.flatMap_cons, ← ih]
      cases attempt <;> rfl

/-- Whatever a source is, all of its program is labelled by tokens of the source,
in their order; without diagnostics these are all tokens up to the first end of
input but the punctuation. -/
theorem tokens_of_parse (source : String) :
    (∀ statement ∈ (parse source).1.statements, statement.Labelled) ∧
    (parse source).1.tokens.Sublist (Lexer.stream (Text.bytes source)) ∧
    ((parse source).2 = [] →
      (parse source).1.tokens =
        (Lexer.ofString source).tokenize.1.dropLast.filter Token.isNode) := by
  refine ⟨fun statement hStatement => ?_, ?_, fun hNone => ?_⟩
  · obtain ⟨attempt, taken, left, hDrawn, hSome⟩ := exists_drawnFrom_of_mem_statements hStatement
    exact hDrawn.labelled statement hSome
  · rw [tokens_eq_flatMap_attempts]
    exact flatMap_tokens_readAll_sublist fun token => Lexer.spelled_of_mem_stream
  · obtain ⟨script, rest, hScript, -, hTokens, hRest, hTree⟩ :=
      exists_script_of_parse (Prod.ext rfl hNone : parse source = ((parse source).1, []))
    have hTokenize : (Lexer.ofString source).tokenize.1.dropLast = script.tokens := by
      rw [Lexer.tokenize_fst, List.dropLast_concat, ← script.takeWhile_tokens_append hRest,
        ← hTokens]
      rfl
    rw [hTokenize, ← hTree, Script.tokens_tree hScript]

/-- The exclamation mark is not punctuation, so no token of this source is left out. -/
theorem tokens_of_parse_negation :
    (parse "return !x").2 = [] ∧
      (parse "return !x").1.tokens =
        (Lexer.ofString "return !x").tokenize.1.dropLast.filter Token.isNode := by
  have hSource : "return !x" = "return " ++ Phrase.negationsText 1 := by decide
  have hNone : (parse "return !x").2 = [] := by
    rw [hSource, parse_returningNegations (by decide)]
  exact ⟨hNone, (tokens_of_parse "return !x").2.2 hNone⟩

end Program

end LetLang
