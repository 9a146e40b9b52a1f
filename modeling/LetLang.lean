import LetLang.Token.Kind
import LetLang.Token
import LetLang.Text.Bytes
import LetLang.Text.Line
import LetLang.Text.Unicode.CodeRange
import LetLang.Text.Unicode.GraphemeExtend
import LetLang.Text.Unicode.Unassigned
import LetLang.Text.Unicode.Invisible
import LetLang.Text.Quoted
import LetLang.Text.Style
import LetLang.Diagnostic
import LetLang.Token.Lexeme
import LetLang.Token.Lexer
import LetLang.Token.Reading
import LetLang.Expr
import LetLang.Expr.Numeral
import LetLang.Expr.Precedence
import LetLang.Expr.Reading
import LetLang.Program
import LetLang.Program.Attempt
import LetLang.Program.Parser
import LetLang.Session.Transcript
import LetLang.Session
import LetLang.FileTree
import LetLang.Command.Arguments
import LetLang.Command
import LetLang.Main
import LetLang.Proofs.Text.Ascii
import LetLang.Proofs.Text.Lines
import LetLang.Proofs.Text.ControlSequence
import LetLang.Proofs.Token.Spelling
import LetLang.Proofs.Token.Stream
import LetLang.Proofs.Token.Relexing
import LetLang.Proofs.Token.Division
import LetLang.Proofs.Token.Scanner
import LetLang.Proofs.Token.Segments
import LetLang.Proofs.Grammar.Syntax
import LetLang.Proofs.Grammar.Phrases
import LetLang.Proofs.Grammar.Scripts
import LetLang.Proofs.Grammar.Acceptance
import LetLang.Proofs.Grammar.Unambiguity
import LetLang.Proofs.Numeral
import LetLang.Proofs.Canonical.Rendering
import LetLang.Proofs.Canonical.Reparsing
import LetLang.Proofs.Canonical.Injectivity
import LetLang.Proofs.Recovery
import LetLang.Proofs.Continuation
import LetLang.Proofs.Joining
import LetLang.Proofs.Provenance
import LetLang.Proofs.Spacing
import LetLang.Proofs.Nesting
import LetLang.Proofs.Cursor
import LetLang.Proofs.Cursor.Reading
import LetLang.Proofs.Cursor.Diagnostics
import LetLang.Proofs.Cursor.Machine
import LetLang.Proofs.Cursor.Progress
import LetLang.Proofs.Nesting.Height
import LetLang.Proofs.Position
import LetLang.Proofs.Session.Lines
import LetLang.Proofs.Session.Output
import LetLang.Proofs.Session.Writing
import LetLang.Proofs.Session.Listing
import LetLang.Proofs.Session.Colour
