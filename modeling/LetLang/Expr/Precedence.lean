import LetLang.Token.Kind

/-! Binding strength of operators. An operator takes an operand on its right
only as far as operators that bind tighter than itself. -/
namespace LetLang

/-- Binding strengths, weakest first. `call` is the strongest level; no token
has it yet. -/
inductive Precedence where
  | lowest | equality | comparison | sum | product | unary | call
deriving DecidableEq

namespace Precedence

def rank : Precedence → Nat
  | lowest => 0
  | equality => 1
  | comparison => 2
  | sum => 3
  | product => 4
  | unary => 5
  | call => 6

instance : LT Precedence := ⟨fun weaker tighter => weaker.rank < tighter.rank⟩

instance (weaker tighter : Precedence) : Decidable (weaker < tighter) :=
  inferInstanceAs (Decidable (weaker.rank < tighter.rank))

def ofSymbol : Symbol → Precedence
  | .equal | .notEqual => equality
  | .less | .greater => comparison
  | .plus | .minus => sum
  | .star | .slash => product
  | _ => lowest

/-- Strength of a token between two operands. A token that is no binary
operator has the lowest, which is below every operator. -/
def ofKind : Kind → Precedence
  | .symbol symbol => ofSymbol symbol
  | _ => lowest

end Precedence

end LetLang
