/-! Sets of code points, written as closed ranges in ascending order with gaps
between them, so that a look-up may stop at the first range that ends at or
behind the code point. -/
namespace LetLang.Text.Unicode

/-- Whether a code point is in one of the ranges, which are ascending. -/
def contains : List (Nat × Nat) → Nat → Bool
  | [], _ => false
  | (first, last) :: ranges, code =>
      if last < code then contains ranges code else first ≤ code

end LetLang.Text.Unicode
