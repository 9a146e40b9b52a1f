import LetLang.Token.Kind

/-! Tokens, and the one-line form in which they are listed. -/
namespace LetLang

/-- A token is its kind and the text it was read from. -/
structure Token where
  kind : Kind
  literal : String
deriving DecidableEq

namespace Token

/-- The end of the input has no text. -/
def eof : Token := ⟨.eof, ""⟩

/-- The token of a run of letters, a keyword or an identifier. -/
def ofWord (word : String) : Token := ⟨.ofWord word, word⟩

def ofSymbol (symbol : Symbol) : Token := ⟨.symbol symbol, symbol.spelling⟩

/-- The listed form of a token. The literal is written as it is, without
any quoting, between fixed text that names both fields. -/
def display (token : Token) : String :=
  "\x7bType:" ++ token.kind.name ++ " Literal:" ++ token.literal ++ "\x7d"

end Token

end LetLang
