import LetLang.Expr
import LetLang.Expr.Numeral
import LetLang.Expr.Precedence
import LetLang.Token.Reading

/-! Reading expressions. An expression is an operand followed by operators
that bind tighter than a floor, each folding the tree read so far into a new
left operand. Nesting is limited twice by one budget of levels: every
nested expression has one level less, and an expression may fold as many
operators as the expressions nested in it have levels. -/
namespace LetLang.Expr

/-- Levels of nesting that a statement's expression may use. -/
def nestingLimit : Nat := 256

/-- Read one operand: a name, a numeral, a unary operator with its operand,
or a group. Expressions inside it are read by `nested`. A token that cannot
start an operand is passed over. -/
def readOperand (nested : Precedence → List Token → Reading Expr) :
    List Token → Reading Expr
  | [] => .failed (.noOperand .eof) []
  | token :: rest =>
      match token.kind with
      | .ident => .found (.name (.ofToken token)) rest
      | .int =>
          match Numeral.value? token.literal with
          | some value => .found (.integer token value) rest
          | none => .failed (.badInteger token.literal) rest
      | .symbol .bang | .symbol .minus => (nested .unary rest).map (.unary token token.literal)
      | .symbol .openParen =>
          (nested .lowest rest).andThen fun inner behind =>
            (Reading.expect (.symbol .closeParen) behind).map fun _ => inner
      | kind => .failed (.noOperand kind) rest

/-- Fold operators above the floor into `left`, each with a right operand
read by `nested` at the operator's own strength, so that equal strengths
group to the left. Without folds to spend, an operator stays unread. -/
def readOperators (nested : Precedence → List Token → Reading Expr) (floor : Precedence) :
    (folds : Nat) → (left : Expr) → List Token → Reading Expr
  | _, left, [] => .found left []
  | folds, left, token :: rest =>
      if floor < Precedence.ofKind token.kind then
        match folds with
        | 0 => .failed .tooDeep (token :: rest)
        | folds + 1 =>
            (nested (Precedence.ofKind token.kind) rest).andThen fun right behind =>
              readOperators nested floor folds (.binary token left token.literal right) behind
      else .found left (token :: rest)

/-- Read an expression whose operators all bind tighter than the floor. With
no level left the first token is passed over unread. -/
def read : (levels : Nat) → (floor : Precedence) → List Token → Reading Expr
  | 0, _, tokens => .failed .tooDeep tokens.tail
  | levels + 1, floor, tokens =>
      (readOperand (read levels) tokens).andThen (readOperators (read levels) floor levels)

/-- If nested readings leave an end of their tokens, so does an operand, and its first token
is not in it. That token is taken even where it can start no operand. -/
theorem rest_readOperand_suffix {nested : Precedence → List Token → Reading Expr}
    (hNested : ∀ floor tokens, (nested floor tokens).rest <:+ tokens) (tokens : List Token) :
    (readOperand nested tokens).rest <:+ tokens.tail := by
  cases tokens with
  | nil => exact List.suffix_rfl
  | cons token rest =>
      simp only [readOperand, List.tail_cons]
      split
      · exact List.suffix_rfl
      · split <;> exact List.suffix_rfl
      · rw [Reading.rest_map]
        exact hNested _ rest
      · rw [Reading.rest_map]
        exact hNested _ rest
      · refine Reading.rest_andThen_suffix (hNested _ rest) ?_
        intro inner behind
        rw [Reading.rest_map]
        exact Reading.rest_expect_suffix _ behind
      · exact List.suffix_rfl

/-- Folding leaves an end of the tokens behind the operand, which may be all of them. What
was read before a failure is not given back. -/
theorem rest_readOperators_suffix {nested : Precedence → List Token → Reading Expr}
    (hNested : ∀ floor tokens, (nested floor tokens).rest <:+ tokens) (floor : Precedence)
    (folds : Nat) (left : Expr) (tokens : List Token) :
    (readOperators nested floor folds left tokens).rest <:+ tokens := by
  induction folds generalizing left tokens with
  | zero =>
      cases tokens with
      | nil => exact List.suffix_rfl
      | cons token rest =>
          simp only [readOperators]
          split <;> exact List.suffix_rfl
  | succ folds ih =>
      cases tokens with
      | nil => exact List.suffix_rfl
      | cons token rest =>
          simp only [readOperators]
          split
          · refine Reading.rest_andThen_suffix ?_ (fun right behind => ih _ behind)
            exact (hNested _ rest).trans (List.suffix_cons token rest)
          · exact List.suffix_rfl

/-- Reading passes over at least one token, found or failed, and otherwise
leaves the tokens as they were. -/
theorem rest_read_suffix (levels : Nat) (floor : Precedence) (tokens : List Token) :
    (read levels floor tokens).rest <:+ tokens.tail := by
  induction levels generalizing floor tokens with
  | zero => exact List.suffix_rfl
  | succ levels ih =>
      have hNested (floor : Precedence) (tokens : List Token) :
          (read levels floor tokens).rest <:+ tokens :=
        (ih floor tokens).trans (List.tail_suffix tokens)
      unfold read
      exact Reading.rest_andThen_suffix (rest_readOperand_suffix hNested tokens)
        (rest_readOperators_suffix hNested floor levels)

end LetLang.Expr
