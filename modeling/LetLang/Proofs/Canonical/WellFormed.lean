import Mathlib.Data.List.Forall2
import LetLang.Proofs.Grammar.Syntax

/-! Well-formed programs: the trees that a source without mistakes can have.
Every child is there, every token is one that the lexer delivers for it, and
names, values and operators are what their tokens say. Also the levels of
nesting that the canonical text of a tree needs, counted on the tree. Canonical
text says all of a tree but the token that an expression statement starts with,
since a group may have come first there. -/
namespace LetLang

namespace Expr

inductive WellFormed : Expr → Prop where
  | name {word : String} (hWord : Text.IsName word) :
      WellFormed (.name ⟨⟨.ident, word⟩, word⟩)
  | integer {numeral : String} {value : Nat} (hNumeral : Text.IsNumeral numeral)
      (hValue : Numeral.value? numeral = some value) :
      WellFormed (.integer ⟨.int, numeral⟩ value)
  | unary {operator : Symbol} {operand : Expr} (hOperator : operator ∈ Symbol.unaryOperators)
      (hOperand : operand.WellFormed) :
      WellFormed (.unary (.ofSymbol operator) operator.spelling operand)
  | binary {operator : Symbol} {left right : Expr} (hOperator : operator ∈ Symbol.binaryOperators)
      (hLeft : left.WellFormed) (hRight : right.WellFormed) :
      WellFormed (.binary (.ofSymbol operator) left operator.spelling right)

/-- The token that the canonical text of a tree starts with. -/
def canonicalFirst : Expr → Token
  | name n => n.token
  | integer token _ => token
  | unary _ _ _ => .ofSymbol .openParen
  | binary _ _ _ _ => .ofSymbol .openParen

/-- Levels of nesting that the canonical text of a tree needs. A unary operator
costs two, its group and itself. A binary one costs its left operand only the
group, since the operator is a fold, and its right operand two. -/
def canonicalNeed : Expr → Nat
  | name _ => 1
  | integer _ _ => 1
  | unary _ _ operand => 2 + operand.canonicalNeed
  | binary _ left _ right => max (1 + left.canonicalNeed) (2 + right.canonicalNeed)

end Expr

namespace Statement

inductive WellFormed : Statement → Prop where
  | binding {word : String} {value : Expr} (hWord : Text.IsName word)
      (hValue : value.WellFormed) :
      WellFormed (.binding (.ofKeyword .letWord) ⟨⟨.ident, word⟩, word⟩ (some value))
  | result {value : Expr} (hValue : value.WellFormed) :
      WellFormed (.result (.ofKeyword .returnWord) (some value))
  | expression {value : Expr} (hValue : value.WellFormed) :
      WellFormed (.expression value.canonicalFirst (some value))

/-- Equality up to the token that an expression statement starts with. -/
inductive SameShape : Statement → Statement → Prop where
  | refl (statement : Statement) : SameShape statement statement
  | expression (first second : Token) (value : Option Expr) :
      SameShape (.expression first value) (.expression second value)

/-- The statement with the token that its canonical text starts with. -/
def canonical : Statement → Statement
  | expression _ (some value) => expression value.canonicalFirst (some value)
  | statement => statement

/-- No more than the token in front of an expression is changed. -/
theorem sameShape_canonical (statement : Statement) : SameShape statement.canonical statement := by
  fun_cases canonical statement with
  | case1 first value => exact .expression _ _ _
  | case2 statement hOther => exact .refl _

@[simp] theorem value_canonical (statement : Statement) :
    statement.canonical.value = statement.value := by
  fun_cases canonical statement with
  | case1 first value => rfl
  | case2 statement hOther => rfl

/-- The token in front of an expression statement is not printed, so another in its place
changes no text. -/
@[simp] theorem render_canonical (statement : Statement) :
    statement.canonical.render = statement.render := by
  fun_cases canonical statement with
  | case1 first value => rfl
  | case2 statement hOther => rfl

end Statement

namespace Program

def WellFormed (program : Program) : Prop :=
  ∀ statement ∈ program.statements, statement.WellFormed

/-- No value needs more levels of nesting in canonical text than there are. -/
def CanonicalWithinLimit (program : Program) : Prop :=
  ∀ statement ∈ program.statements, ∀ value ∈ statement.value,
    value.canonicalNeed ≤ Expr.nestingLimit

/-- As many statements, one as the other up to the tokens of expression statements. -/
def SameShape (left right : Program) : Prop :=
  List.Forall₂ Statement.SameShape left.statements right.statements

/-- The program with the tokens that its canonical text has. -/
def canonical (program : Program) : Program := ⟨program.statements.map Statement.canonical⟩

theorem sameShape_canonical (program : Program) : program.canonical.SameShape program := by
  refine List.forall₂_map_left_iff.mpr ?_
  exact List.forall₂_same.mpr fun statement _ => statement.sameShape_canonical

@[simp] theorem render_canonical (program : Program) :
    program.canonical.render = program.render := by
  simp [render, canonical, Function.comp_def]

/-- Levels are counted on the values, which stay as they are. -/
@[simp] theorem canonicalWithinLimit_canonical (program : Program) :
    program.canonical.CanonicalWithinLimit ↔ program.CanonicalWithinLimit := by
  simp [CanonicalWithinLimit, canonical]

end Program

end LetLang
