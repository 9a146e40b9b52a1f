import LetLang.Token.Kind
import LetLang.Text.Quoted

/-! What can be wrong with a program, and how it is worded. -/
namespace LetLang

/-- The cause of a failed statement. -/
inductive Diagnostic where
  /-- The grammar requires one kind of token here, and another was found. -/
  | unexpected (expected found : Kind)
  /-- An expression should start here, and this kind of token cannot start one. -/
  | noOperand (found : Kind)
  /-- The numeral is malformed or its value is out of range. -/
  | badInteger (literal : String)
  /-- The expression nests deeper than the parser follows. -/
  | tooDeep
deriving DecidableEq

namespace Diagnostic

def message : Diagnostic → String
  | unexpected expected found =>
      "expected next token to be " ++ expected.name ++ ", got " ++ found.name
  | noOperand found => "no prefix parse function for " ++ found.name ++ " found"
  | badInteger literal => "could not parse " ++ Text.Quoted.encode literal ++ " as integer"
  | tooDeep => "expression nested too deeply"

end Diagnostic

end LetLang
