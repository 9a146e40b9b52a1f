import LetLang.Proofs.Canonical.WellFormed
import LetLang.Proofs.Grammar.Scripts
import LetLang.Proofs.Token.Relexing

/-! Canonical text as source. The canonical text of a well-formed program holds
the tokens of a grammatical script whose tree is that program, and the script
needs exactly the levels of nesting that were counted on the tree. Statements
end where they should because each starts on a new line and none with a minus. -/
namespace LetLang

namespace Expr

/-- Canonical text starts with a letter, a digit or an opening parenthesis. -/
theorem WellFormed.head_ne_equals {expr : Expr} (h : expr.WellFormed) (rest : List UInt8)
    {byte : UInt8} (hByte : byte ∈ (Text.bytes expr.render ++ rest).head?) :
    Char.ofUInt8 byte ≠ '=' := by
  intro hEquals
  cases h with
  | @name word hWord =>
      obtain ⟨first, tail, hBytes⟩ := List.exists_cons_of_ne_nil (Text.bytes_ne_nil hWord.1.1)
      have hLetter := hWord.1.isLetter_of_mem (hBytes ▸ List.mem_cons_self : first ∈ Text.bytes word)
      rw [render, hBytes] at hByte
      obtain rfl : first = byte := Option.some.inj hByte
      simp [Byte.isLetter, hEquals] at hLetter
  | @integer numeral value hNumeral hValue =>
      obtain ⟨first, tail, hBytes⟩ := List.exists_cons_of_ne_nil (Text.bytes_ne_nil hNumeral.1)
      have hDigit := hNumeral.isDigit_of_mem (hBytes ▸ List.mem_cons_self : first ∈ Text.bytes numeral)
      rw [render, hBytes] at hByte
      obtain rfl : first = byte := Option.some.inj hByte
      simp [Byte.isDigit, hEquals] at hDigit
  | unary hOperator hOperand =>
      simp only [render, Text.bytes_append, List.append_assoc] at hByte
      obtain rfl : 0x28 = byte := Option.some.inj hByte
      exact absurd hEquals (by decide)
  | binary hOperator hLeft hRight =>
      simp only [render, Text.bytes_append, List.append_assoc] at hByte
      obtain rfl : 0x28 = byte := Option.some.inj hByte
      exact absurd hEquals (by decide)

end Expr

namespace Phrase

/-- The phrase that the canonical text of a tree is. -/
structure Writes (phrase : Phrase) (expr : Expr) : Prop where
  grammatical : phrase.Grammatical
  simple : phrase.operator? = none
  tree_eq : phrase.tree = expr
  need_eq : phrase.need = expr.canonicalNeed
  first_eq : phrase.first = expr.canonicalFirst
  stream_eq : ∀ rest, Byte.Breaks rest →
    Lexer.stream (Text.bytes expr.render ++ rest) = phrase.tokens ++ Lexer.stream rest

end Phrase

namespace Expr

open Phrase (Writes)

/-- The group in which a unary operator is printed is a phrase for its tree. It costs a
level for the group and one for the operand. -/
theorem writes_unary {operator : Symbol} {operand : Expr} {phrase : Phrase}
    (hOperator : operator ∈ Symbol.unaryOperators) (hOperand : operand.WellFormed)
    (hPhrase : phrase.Writes operand) :
    Writes (.group (.unary operator phrase))
      (.unary (.ofSymbol operator) operator.spelling operand) where
  grammatical := .group (.unary hOperator hPhrase.grammatical hPhrase.simple)
  simple := rfl
  tree_eq := by
    rw [← hPhrase.tree_eq]
    rfl
  need_eq := by
    rw [Phrase.need_group, Phrase.need_unary, hPhrase.need_eq, canonicalNeed, ← Nat.add_assoc]
  first_eq := rfl
  stream_eq := by
    intro rest hRest
    have hAlone : ∀ byte ∈ (Text.bytes operand.render ++ (Text.bytes ")" ++ rest)).head?,
        (Token.ofSymbol operator).extendedBy byte = false := by
      intro byte hByte
      simp [Token.extendedBy, Token.ofSymbol, hOperand.head_ne_equals _ hByte]
    simp only [render, Text.bytes_append, List.append_assoc]
    rw [Lexer.stream_open_append, Lexer.stream_symbol_append operator hAlone,
      hPhrase.stream_eq _ (Byte.breaks_close rest), Lexer.stream_close_append]
    simp [Phrase.tokens]

/-- The same for a binary operator. Its left operand costs only the level of the group,
because folding starts from it. -/
theorem writes_binary {operator : Symbol} {left right : Expr} {leftPhrase rightPhrase : Phrase}
    (hOperator : operator ∈ Symbol.binaryOperators) (hLeft : leftPhrase.Writes left)
    (hRight : rightPhrase.Writes right) :
    Writes (.group (.binary leftPhrase operator rightPhrase))
      (.binary (.ofSymbol operator) left operator.spelling right) where
  grammatical :=
    .group (.binary hOperator hLeft.grammatical hRight.grammatical
      (by simp [hLeft.simple]) (by simp [hRight.simple]))
  simple := rfl
  tree_eq := by
    rw [← hLeft.tree_eq, ← hRight.tree_eq]
    rfl
  need_eq := by
    have hLeftNeed := hLeft.need_eq
    have hRightNeed := hRight.need_eq
    have hFolds := Phrase.folds_of_operator?_eq_none hLeft.simple
    rw [Phrase.need] at hLeftNeed hRightNeed
    rw [Phrase.need_group, Phrase.need_binary, Phrase.need, canonicalNeed]
    omega
  first_eq := rfl
  stream_eq := by
    intro rest hRest
    have hAlone : ∀ byte ∈ (Text.bytes " " ++
        (Text.bytes right.render ++ (Text.bytes ")" ++ rest))).head?,
        (Token.ofSymbol operator).extendedBy byte = false := fun byte hByte =>
      Token.extendedBy_of_isBreak (Byte.breaks_space _ byte hByte) _
    simp only [render, Text.bytes_append, List.append_assoc]
    rw [Lexer.stream_open_append, hLeft.stream_eq _ (Byte.breaks_space _),
      Lexer.stream_space_append, Lexer.stream_symbol_append operator hAlone,
      Lexer.stream_space_append, hRight.stream_eq _ (Byte.breaks_close rest),
      Lexer.stream_close_append]
    simp [Phrase.tokens]

/-- Every well-formed tree is written as a phrase. -/
theorem WellFormed.exists_phrase {expr : Expr} (h : expr.WellFormed) :
    ∃ phrase : Phrase, phrase.Writes expr := by
  induction h with
  | @name word hWord =>
      exact ⟨.name word, .name word, rfl, rfl, rfl, rfl,
        fun rest hRest => Lexer.stream_name_append hWord hRest⟩
  | @integer numeral value hNumeral hValue =>
      refine ⟨.integer numeral value, .integer hValue, rfl, rfl, rfl, rfl, fun rest hRest => ?_⟩
      exact Lexer.stream_numeral_append hNumeral fun byte hByte =>
        Token.extendedBy_of_isBreak (hRest byte hByte) ⟨.int, numeral⟩
  | unary hOperator hOperand ih =>
      obtain ⟨phrase, hPhrase⟩ := ih
      exact ⟨_, writes_unary hOperator hOperand hPhrase⟩
  | binary hOperator hLeft hRight ihLeft ihRight =>
      obtain ⟨leftPhrase, hLeftPhrase⟩ := ihLeft
      obtain ⟨rightPhrase, hRightPhrase⟩ := ihRight
      exact ⟨_, writes_binary hOperator hLeftPhrase hRightPhrase⟩

/-- The token that canonical text was said to start with is the one it starts with. -/
theorem WellFormed.head?_stream_render {expr : Expr} (h : expr.WellFormed) :
    (Lexer.stream (Text.bytes expr.render)).head? = some expr.canonicalFirst := by
  obtain ⟨phrase, hPhrase⟩ := h.exists_phrase
  obtain ⟨rest, hTokens⟩ := phrase.tokens_eq_first_cons
  have hStream := hPhrase.stream_eq [] Byte.breaks_nil
  rw [List.append_nil, Lexer.stream_nil, List.append_nil] at hStream
  rw [hStream, hTokens, hPhrase.first_eq, List.head?_cons]

end Expr

namespace Sentence

/-- The sentence that the canonical text of a statement is. -/
structure Writes (sentence : Sentence) (statement : Statement) : Prop where
  grammatical : sentence.value.Grammatical
  tree_eq : sentence.tree = statement
  need_eq : ∃ value, statement.value = some value ∧ sentence.value.need = value.canonicalNeed
  first_ne_minus : sentence.first ≠ .ofSymbol .minus
  stream_eq : ∀ rest, Byte.Breaks rest →
    Lexer.stream (Text.bytes statement.render ++ rest) = sentence.tokens ++ Lexer.stream rest

end Sentence

namespace Statement

open Sentence (Writes)

/-- A binding is printed as one sentence, semicolon included. The space behind the name ends
it, whatever the value is. -/
theorem writes_binding {word : String} {value : Expr} {phrase : Phrase} (hWord : Text.IsName word)
    (hPhrase : phrase.Writes value) :
    Writes ⟨.binding word, phrase, true⟩
      (.binding (.ofKeyword .letWord) ⟨⟨.ident, word⟩, word⟩ (some value)) where
  grammatical := hPhrase.grammatical
  tree_eq := by
    rw [← hPhrase.tree_eq]
    rfl
  need_eq := ⟨value, rfl, hPhrase.need_eq⟩
  first_ne_minus := show Token.ofKeyword .letWord ≠ .ofSymbol .minus by decide
  stream_eq := by
    intro rest hRest
    have hEquals : Text.bytes " = " = Text.bytes " " ++ (Text.bytes "=" ++ Text.bytes " ") := by
      decide
    have hAssign (rest : List UInt8) :
        Lexer.stream (Text.bytes "=" ++ (Text.bytes " " ++ rest)) =
          .ofSymbol .assign :: Lexer.stream rest := by
      rw [← Lexer.stream_space_append rest]
      exact Lexer.stream_symbol_append .assign fun byte hByte =>
        Token.extendedBy_of_isBreak (Byte.breaks_space rest byte hByte) _
    simp only [render, renderValue, Text.bytes_append, hEquals, List.append_assoc]
    rw [show (Token.ofKeyword .letWord).literal = Keyword.letWord.spelling from rfl,
      Lexer.stream_keyword_append .letWord (Byte.breaks_space _), Lexer.stream_space_append,
      Lexer.stream_name_append hWord (Byte.breaks_space _), Lexer.stream_space_append, hAssign,
      hPhrase.stream_eq _ (Byte.breaks_semicolon rest), Lexer.stream_semicolon_append]
    simp [Sentence.tokens, Sentence.ending, Opening.tokens]

theorem writes_result {value : Expr} {phrase : Phrase} (hPhrase : phrase.Writes value) :
    Writes ⟨.result, phrase, true⟩ (.result (.ofKeyword .returnWord) (some value)) where
  grammatical := hPhrase.grammatical
  tree_eq := by
    rw [← hPhrase.tree_eq]
    rfl
  need_eq := ⟨value, rfl, hPhrase.need_eq⟩
  first_ne_minus := show Token.ofKeyword .returnWord ≠ .ofSymbol .minus by decide
  stream_eq := by
    intro rest hRest
    simp only [render, renderValue, Text.bytes_append, List.append_assoc]
    rw [show (Token.ofKeyword .returnWord).literal = Keyword.returnWord.spelling from rfl,
      Lexer.stream_keyword_append .returnWord (Byte.breaks_space _), Lexer.stream_space_append,
      hPhrase.stream_eq _ (Byte.breaks_semicolon rest), Lexer.stream_semicolon_append]
    simp [Sentence.tokens, Sentence.ending, Opening.tokens]

/-- The only statement that ends without a semicolon. It may start with a parenthesis, but
not with a minus. -/
theorem writes_expression {value : Expr} {phrase : Phrase} (hValue : value.WellFormed)
    (hPhrase : phrase.Writes value) :
    Writes ⟨.bare, phrase, false⟩ (.expression value.canonicalFirst (some value)) where
  grammatical := hPhrase.grammatical
  tree_eq := by
    rw [← hPhrase.tree_eq]
    exact congrArg (Statement.expression · _) (hPhrase.tree_eq ▸ hPhrase.first_eq)
  need_eq := ⟨value, rfl, hPhrase.need_eq⟩
  first_ne_minus := by
    intro hMinus
    have hFirst : value.canonicalFirst = .ofSymbol .minus := hPhrase.first_eq.symm.trans hMinus
    have hKind := congrArg Token.kind hFirst
    cases hValue <;> cases hKind
  stream_eq := by
    intro rest hRest
    have hTokens : Sentence.tokens ⟨.bare, phrase, false⟩ = phrase.tokens := by
      simp [Sentence.tokens, Sentence.ending, Opening.tokens]
    rw [hTokens]
    exact hPhrase.stream_eq rest hRest

/-- Every well-formed statement is written as a sentence. -/
theorem WellFormed.exists_sentence {statement : Statement} (h : statement.WellFormed) :
    ∃ sentence : Sentence, sentence.Writes statement := by
  cases h with
  | binding hWord hValue =>
      obtain ⟨phrase, hPhrase⟩ := hValue.exists_phrase
      exact ⟨_, writes_binding hWord hPhrase⟩
  | result hValue =>
      obtain ⟨phrase, hPhrase⟩ := hValue.exists_phrase
      exact ⟨_, writes_result hPhrase⟩
  | expression hValue =>
      obtain ⟨phrase, hPhrase⟩ := hValue.exists_phrase
      exact ⟨_, writes_expression hValue hPhrase⟩

end Statement

namespace Sentence

variable {sentences : List Sentence} {statements : List Statement}

theorem map_tree_of_writes (h : List.Forall₂ Writes sentences statements) :
    sentences.map tree = statements := by
  induction h with
  | nil => rfl
  | cons hSentence hLater ih => rw [List.map_cons, hSentence.tree_eq, ih]

theorem grammatical_of_writes (h : List.Forall₂ Writes sentences statements) :
    ∀ sentence ∈ sentences,
      sentence.value.Grammatical ∧ sentence.first ≠ .ofSymbol .minus := by
  induction h with
  | nil => simp
  | cons hSentence hLater ih =>
      exact List.forall_mem_cons.mpr ⟨⟨hSentence.grammatical, hSentence.first_ne_minus⟩, ih⟩

theorem need_le_iff_of_writes (h : List.Forall₂ Writes sentences statements) (limit : Nat) :
    (∀ sentence ∈ sentences, sentence.value.need ≤ limit) ↔
      ∀ statement ∈ statements, ∀ value ∈ statement.value, value.canonicalNeed ≤ limit := by
  induction h with
  | nil => simp
  | cons hSentence hLater ih =>
      obtain ⟨value, hValue, hNeed⟩ := hSentence.need_eq
      rw [List.forall_mem_cons, List.forall_mem_cons, ih, hValue, hNeed]
      simp

end Sentence

namespace Script

/-- The script that the canonical text of a program is. -/
structure Writes (script : Script) (program : Program) : Prop where
  sentences : List.Forall₂ Sentence.Writes script.sentences program.statements
  stream_eq : Lexer.stream (Text.bytes program.render) = script.tokens

variable {script : Script} {program : Program}

/-- The tree of the script is the program that was printed, every token of it included and
not just the shape. -/
theorem Writes.tree_eq (h : script.Writes program) : script.tree = program :=
  congrArg Program.mk (Sentence.map_tree_of_writes h.sentences)

/-- A sentence without semicolon is never continued, since none starts with a minus. -/
theorem Writes.grammatical (h : script.Writes program) : script.Grammatical := by
  have hSentences := Sentence.grammatical_of_writes h.sentences
  constructor
  · exact fun sentence hSentence => (hSentences sentence hSentence).1
  · refine List.Pairwise.isChain ?_
    exact List.pairwise_of_forall_mem_list fun _ _ next hNext _ => (hSentences next hNext).2

/-- Levels counted on a program are those that its text uses, so both are within the limit
or neither is. -/
theorem Writes.withinLimit_iff (h : script.Writes program) :
    script.WithinLimit ↔ program.CanonicalWithinLimit :=
  Sentence.need_le_iff_of_writes h.sentences Expr.nestingLimit

end Script

namespace Program

/-- A program with a statement before it adds a line to the canonical text. -/
theorem render_cons_cons (first second : Statement) (later : List Statement) :
    render ⟨first :: second :: later⟩ = first.render ++ "\n" ++ render ⟨second :: later⟩ := by
  simp [render]

/-- Every well-formed program is written as a script. -/
theorem WellFormed.exists_script {program : Program} (h : program.WellFormed) :
    ∃ script : Script, script.Writes program := by
  obtain ⟨statements⟩ := program
  induction statements with
  | nil => exact ⟨⟨[]⟩, .nil, Lexer.stream_nil⟩
  | cons statement later ih =>
      obtain ⟨sentence, hSentence⟩ := (h statement List.mem_cons_self).exists_sentence
      obtain ⟨⟨sentences⟩, hSentences, hStream⟩ :=
        ih fun next hNext => h next (List.mem_cons_of_mem _ hNext)
      refine ⟨⟨sentence :: sentences⟩, .cons hSentence hSentences, ?_⟩
      rw [Script.tokens_cons, ← hStream]
      cases later with
      | nil =>
          have hAlone := hSentence.stream_eq [] Byte.breaks_nil
          simpa [render] using hAlone
      | cons next later =>
          rw [render_cons_cons, Text.bytes_append, Text.bytes_append, List.append_assoc,
            hSentence.stream_eq _ (Byte.breaks_newline _), Lexer.stream_newline_append]

end Program

end LetLang
