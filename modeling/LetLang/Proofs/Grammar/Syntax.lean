import Mathlib.Data.List.Chain
import LetLang.Program
import LetLang.Expr.Numeral
import LetLang.Expr.Precedence
import LetLang.Expr.Reading
import LetLang.Proofs.Token.Spelling

/-! The grammar of programs, apart from any way of reading them. A phrase is an
expression as it is written, groups included, and a sentence is a statement as
it is written, with its semicolon if it has one. Each flattens to tokens and
stands for a tree, in which groups and semicolons have left no trace. -/
namespace LetLang

namespace Symbol

/-- The operators between two operands. -/
def binaryOperators : List Symbol :=
  [plus, minus, star, slash, equal, notEqual, less, greater]

/-- The operators before one operand. -/
def unaryOperators : List Symbol := [bang, minus]

end Symbol

/-- Expressions as they are written. -/
inductive Phrase where
  | name (word : String)
  | integer (numeral : String) (value : Nat)
  | unary (operator : Symbol) (operand : Phrase)
  | group (inner : Phrase)
  | binary (left : Phrase) (operator : Symbol) (right : Phrase)
deriving DecidableEq

namespace Phrase

/-- The operator between the outermost two operands, if the phrase is binary
and no group is around it. -/
def operator? : Phrase → Option Symbol
  | binary _ operator _ => some operator
  | _ => none

/-- Operators group to the left: a left operand may have a top operator as
strong as the one behind it, a right operand needs a stronger one. The operand
of a unary operator is never binary. -/
inductive Grammatical : Phrase → Prop where
  | name (word : String) : Grammatical (.name word)
  | integer {numeral : String} {value : Nat} (hValue : Numeral.value? numeral = some value) :
      Grammatical (.integer numeral value)
  | unary {operator : Symbol} {operand : Phrase} (hOperator : operator ∈ Symbol.unaryOperators)
      (hOperand : Grammatical operand) (hSimple : operand.operator? = none) :
      Grammatical (.unary operator operand)
  | group {inner : Phrase} (hInner : Grammatical inner) : Grammatical (.group inner)
  | binary {left right : Phrase} {operator : Symbol} (hOperator : operator ∈ Symbol.binaryOperators)
      (hLeft : Grammatical left) (hRight : Grammatical right)
      (hLeftBinds : ∀ top ∈ left.operator?,
        ¬ Precedence.ofSymbol top < Precedence.ofSymbol operator)
      (hRightBinds : ∀ top ∈ right.operator?,
        Precedence.ofSymbol operator < Precedence.ofSymbol top) :
      Grammatical (.binary left operator right)

def tokens : Phrase → List Token
  | name word => [⟨.ident, word⟩]
  | integer numeral _ => [⟨.int, numeral⟩]
  | unary operator operand => .ofSymbol operator :: operand.tokens
  | group inner => .ofSymbol .openParen :: (inner.tokens ++ [.ofSymbol .closeParen])
  | binary left operator right => left.tokens ++ .ofSymbol operator :: right.tokens

/-- The tree that a phrase stands for. -/
def tree : Phrase → Expr
  | name word => .name (.ofToken ⟨.ident, word⟩)
  | integer numeral value => .integer ⟨.int, numeral⟩ value
  | unary operator operand => .unary (.ofSymbol operator) operator.spelling operand.tree
  | group inner => inner.tree
  | binary left operator right =>
      .binary (.ofSymbol operator) left.tree operator.spelling right.tree

/-- The token that a phrase starts with. -/
def first : Phrase → Token
  | name word => ⟨.ident, word⟩
  | integer numeral _ => ⟨.int, numeral⟩
  | unary operator _ => .ofSymbol operator
  | group _ => .ofSymbol .openParen
  | binary left _ _ => left.first

/-- Seen from its left end, a phrase is one operand that is not binary, and
behind it operators with a right operand each. This counts the operators. -/
def folds : Phrase → Nat
  | binary left _ _ => left.folds + 1
  | _ => 0

/-- Levels of nesting that the operands along the left end of a phrase need. A
name or numeral there needs none of its own, a unary operator or group as many
as the phrase in it, and a right operand as many as it needs as a phrase. The
need of a phrase is written out below, since it is defined through this. -/
def operandNeed : Phrase → Nat
  | name _ => 0
  | integer _ _ => 0
  | unary _ operand => 1 + max operand.operandNeed operand.folds
  | group inner => 1 + max inner.operandNeed inner.folds
  | binary left _ right => max left.operandNeed (1 + max right.operandNeed right.folds)

/-- Levels of nesting that a phrase needs: one for itself, and below it as many
as its operands need or as it has operators, whichever is more. -/
def need (phrase : Phrase) : Nat := 1 + max phrase.operandNeed phrase.folds

/-- In terms of needs again: a unary operator costs what its operand needs as a phrase. -/
theorem operandNeed_unary (operator : Symbol) (operand : Phrase) :
    (unary operator operand).operandNeed = operand.need := rfl

theorem operandNeed_group (inner : Phrase) : (group inner).operandNeed = inner.need := rfl

theorem operandNeed_binary (left : Phrase) (operator : Symbol) (right : Phrase) :
    (binary left operator right).operandNeed = max left.operandNeed right.need := rfl

theorem need_unary (operator : Symbol) (operand : Phrase) :
    (unary operator operand).need = 1 + operand.need :=
  congrArg (1 + ·) (Nat.max_zero operand.need)

theorem need_group (inner : Phrase) : (group inner).need = 1 + inner.need :=
  congrArg (1 + ·) (Nat.max_zero inner.need)

/-- The operand at the left end costs no level of its own, since folding starts from it.
Operators count as levels where there are more of them. -/
theorem need_binary (left : Phrase) (operator : Symbol) (right : Phrase) :
    (binary left operator right).need =
      1 + max (max left.operandNeed right.need) (left.folds + 1) := rfl

/-- Only a binary phrase has operators along its left end. -/
theorem folds_of_operator?_eq_none {phrase : Phrase} (h : phrase.operator? = none) :
    phrase.folds = 0 := by
  cases phrase with
  | binary left operator right => cases h
  | _ => rfl

/-- Every phrase has tokens, and its first is known without flattening it. -/
theorem tokens_eq_first_cons (phrase : Phrase) : ∃ rest, phrase.tokens = phrase.first :: rest := by
  induction phrase with
  | binary left operator right ihLeft ihRight =>
      obtain ⟨rest, hLeft⟩ := ihLeft
      exact ⟨rest ++ .ofSymbol operator :: right.tokens, by rw [tokens, hLeft]; rfl⟩
  | _ => exact ⟨_, rfl⟩

end Phrase

/-- What stands before the value of a statement. -/
inductive Opening where
  | binding (name : String)
  | result
  | bare
deriving DecidableEq

namespace Opening

def tokens : Opening → List Token
  | binding name => [.ofKeyword .letWord, ⟨.ident, name⟩, .ofSymbol .assign]
  | result => [.ofKeyword .returnWord]
  | bare => []

/-- The statement that starts with this token, given its value. -/
def statement (first : Token) : Opening → Option Expr → Statement
  | binding name => .binding first (.ofToken ⟨.ident, name⟩)
  | result => .result first
  | bare => .expression first

end Opening

/-- Statements as they are written. -/
structure Sentence where
  opening : Opening
  value : Phrase
  terminated : Bool
deriving DecidableEq

namespace Sentence

/-- The semicolon, where there is one. -/
def ending (sentence : Sentence) : List Token :=
  if sentence.terminated then [.ofSymbol .semicolon] else []

def tokens (sentence : Sentence) : List Token :=
  sentence.opening.tokens ++ sentence.value.tokens ++ sentence.ending

/-- The token that a sentence starts with. -/
def first (sentence : Sentence) : Token :=
  match sentence.opening with
  | .binding _ => .ofKeyword .letWord
  | .result => .ofKeyword .returnWord
  | .bare => sentence.value.first

/-- The statement that a sentence stands for. -/
def tree (sentence : Sentence) : Statement :=
  sentence.opening.statement sentence.first (some sentence.value.tree)

end Sentence

/-- Programs as they are written. -/
structure Script where
  sentences : List Sentence
deriving DecidableEq

namespace Script

def tokens (script : Script) : List Token := script.sentences.flatMap Sentence.tokens

def tree (script : Script) : Program := ⟨script.sentences.map Sentence.tree⟩

/-- All values are grammatical, and behind a sentence without a semicolon no
sentence starts with a minus, which would continue the one before it. -/
structure Grammatical (script : Script) : Prop where
  values : ∀ sentence ∈ script.sentences, sentence.value.Grammatical
  separated : script.sentences.IsChain fun sentence next =>
    sentence.terminated = false → next.first ≠ .ofSymbol .minus

/-- No value needs more levels of nesting than there are. -/
def WithinLimit (script : Script) : Prop :=
  ∀ sentence ∈ script.sentences, sentence.value.need ≤ Expr.nestingLimit

end Script

end LetLang
