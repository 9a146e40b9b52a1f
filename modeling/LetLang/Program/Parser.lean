import LetLang.Program.Attempt
import LetLang.Token.Lexer

/-! Parsing programs. A parser holds the tokens it has not read and the
diagnostics found so far, in the order of the statements they belong to. -/
namespace LetLang

structure Parser where
  unread : List Token
  diagnostics : List Diagnostic
deriving DecidableEq

namespace Parser

/-- A parser takes over where the lexer stands. -/
def ofLexer (lexer : Lexer) : Parser := ⟨Lexer.stream lexer.ahead, []⟩

def ofString (source : String) : Parser := ofLexer (.ofString source)

/-- Read a whole program. Reading stops at an end of input and never moves
past it, so nothing is left to read afterwards. -/
def program (parser : Parser) : Program × Parser :=
  let attempts := Attempt.readAll parser.unread
  (⟨attempts.filterMap Attempt.statement?⟩,
   ⟨[], parser.diagnostics ++ attempts.filterMap Attempt.diagnostic?⟩)

end Parser

/-- The program of a source text and everything found wrong with it. -/
def Program.parse (source : String) : Program × List Diagnostic :=
  let (program, parser) := (Parser.ofString source).program
  (program, parser.diagnostics)

end LetLang
