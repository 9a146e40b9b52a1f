import LetLang.Token

/-! Expressions and their canonical text. Every node keeps the token it was
made from; grouping parentheses leave no node, and the canonical text puts
them around every operator instead. -/
namespace LetLang

/-- An identifier in the tree: its token, and the name it stands for. -/
structure Name where
  token : Token
  value : String
deriving DecidableEq

/-- A token names what its literal spells. -/
def Name.ofToken (token : Token) : Name := ⟨token, token.literal⟩

/-- Expression trees. An operator is kept by its text besides its token. -/
inductive Expr where
  | name (name : Name)
  | integer (token : Token) (value : Int)
  | unary (token : Token) (operator : String) (operand : Expr)
  | binary (token : Token) (left : Expr) (operator : String) (right : Expr)
deriving DecidableEq

namespace Expr

/-- The token that the root of the tree was made from. -/
def token : Expr → Token
  | name n => n.token
  | integer t _ => t
  | unary t _ _ => t
  | binary t _ _ _ => t

/-- Canonical text: names by value, integers as they were written, and each
operator with its operands in parentheses. -/
def render : Expr → String
  | name n => n.value
  | integer t _ => t.literal
  | unary _ operator operand => "(" ++ operator ++ operand.render ++ ")"
  | binary _ left operator right =>
      "(" ++ left.render ++ " " ++ operator ++ " " ++ right.render ++ ")"

end Expr

end LetLang
