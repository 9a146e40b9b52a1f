import LetLang.Expr

/-! Statements, programs and their canonical text. A statement whose value
could not be read is kept, with the value absent. -/
namespace LetLang

/-- The three forms of statement, each with the token that introduced it. -/
inductive Statement where
  /-- A binding of a name to a value. -/
  | binding (keyword : Token) (name : Name) (value : Option Expr)
  /-- A value to return. -/
  | result (keyword : Token) (value : Option Expr)
  /-- An expression on its own; the token is the first of the statement. -/
  | expression (first : Token) (value : Option Expr)
deriving DecidableEq

namespace Statement

/-- The token that introduced the statement. -/
def token : Statement → Token
  | binding keyword _ _ => keyword
  | result keyword _ => keyword
  | expression first _ => first

def value : Statement → Option Expr
  | binding _ _ value => value
  | result _ value => value
  | expression _ value => value

/-- An absent value is written as nothing. -/
def renderValue : Option Expr → String
  | none => ""
  | some expr => expr.render

def render : Statement → String
  | binding keyword name value =>
      keyword.literal ++ " " ++ name.value ++ " = " ++ renderValue value ++ ";"
  | result keyword value => keyword.literal ++ " " ++ renderValue value ++ ";"
  | expression _ value => renderValue value

end Statement

/-- A program is its statements in source order. -/
structure Program where
  statements : List Statement
deriving DecidableEq

namespace Program

/-- The literal of the first statement's token, empty for an empty program. -/
def tokenLiteral (program : Program) : String :=
  match program.statements with
  | [] => ""
  | first :: _ => first.token.literal

/-- Canonical text: one statement a line, with no line end after the last. -/
def render (program : Program) : String :=
  "\n".intercalate (program.statements.map Statement.render)

end Program

end LetLang
