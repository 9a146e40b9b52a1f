import LetLang.Program.Parser
import LetLang.Session.Transcript
import LetLang.Text.Line
import LetLang.Text.Style

/-! Interactive sessions. A session prompts, reads a line, and answers with
the tokens of the line or with its program, until the input ends. Nothing is
carried from one line to the next. -/
namespace LetLang.Session

/-- What a line is answered with. -/
inductive Mode where
  /-- Its tokens, one a line. -/
  | tokens
  /-- Its program in canonical text, or what is wrong with it. -/
  | ast
deriving DecidableEq

namespace Mode

def name : Mode → String
  | tokens => "tokens"
  | ast => "ast"

def all : List Mode := [tokens, ast]

/-- The mode with exactly this name. -/
def ofName? (name : String) : Option Mode := all.find? fun mode => mode.name == name

/-- The two names differ, so each is read back as its own mode. -/
theorem ofName?_name (mode : Mode) : ofName? mode.name = some mode := by
  cases mode <;> decide

end Mode

/-- How a session prompts and answers; colour is for terminals. -/
structure Config where
  prompt : String := ">> "
  mode : Mode := .tokens
  colour : Bool := false
deriving DecidableEq

/-- Illegal tokens are red, keywords blue, and numerals yellow. -/
def tokenStyle? (kind : Kind) : Option Text.Style :=
  if kind = .illegal then some .red
  else if kind.isKeyword then some .blue
  else if kind = .int then some .yellow
  else none

/-- Text in a style, or plain in a session without colour. -/
def paint (config : Config) (style? : Option Text.Style) (text : String) : String :=
  Text.styled (if config.colour then style? else none) text

def promptText (config : Config) : String := paint config (some .prompt) config.prompt

/-- The line that lists one token. -/
def tokenLine (config : Config) (token : Token) : String :=
  paint config (tokenStyle? token.kind) token.display ++ "\n"

/-- The tokens of a line, up to the first end of input in it. -/
def listTokens (config : Config) (line : String) : List String :=
  ((Lexer.stream (Text.bytes line)).takeWhile fun token => token.kind != .eof).map (tokenLine config)

/-- The line that reports one diagnostic, indented by a tab. -/
def diagnosticLine (config : Config) (diagnostic : Diagnostic) : String :=
  paint config (some .red) ("\t" ++ diagnostic.message) ++ "\n"

/-- The program of a line in canonical text, or its diagnostics under a heading. -/
def showProgram (config : Config) (line : String) : List String :=
  match Program.parse line with
  | (program, []) => [program.render ++ "\n"]
  | (_, diagnostics) => "parser errors:\n" :: diagnostics.map (diagnosticLine config)

/-- The answer to one line. -/
def answer (config : Config) (line : String) : List String :=
  match config.mode with
  | .tokens => listTokens config line
  | .ast => showProgram config line

/-- A session over these lines. Each is prompted for, and so is the end of the
input; a line that is not text ends the session after its prompt. -/
def converse (config : Config) : List (List UInt8) → Transcript
  | [] => ⟨[promptText config], none⟩
  | line :: lines =>
      match Text.ofBytes? line with
      | none => ⟨[promptText config], some .invalidText⟩
      | some text =>
          let later := converse config lines
          ⟨promptText config :: (answer config text ++ later.pieces), later.fault⟩

/-- A session over a byte stream. -/
def run (config : Config) (input : List UInt8) : Transcript :=
  converse config (Text.Line.split input)

end LetLang.Session
