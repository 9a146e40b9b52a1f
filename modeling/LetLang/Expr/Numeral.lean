/-! Integer numerals. A radix mark in front chooses the radix: `0x` sixteen,
`0o` eight, `0b` two, in either case of the letter; a bare leading `0` with
more behind it means eight, anything else ten. The value has to fit in 63 bits. -/
namespace LetLang.Numeral

/-- Values stay below two to the 63rd, the first that a signed word cannot hold. -/
def bound : Nat := 0x8000000000000000

/-- The value of a digit; `a` to `f` count on from nine, in either case. -/
def digitValue? (digit : Char) : Option Nat :=
  if '0' ≤ digit ∧ digit ≤ '9' then some (digit.toNat - '0'.toNat)
  else if 'a' ≤ digit ∧ digit ≤ 'f' then some (digit.toNat - 'a'.toNat + 10)
  else if 'A' ≤ digit ∧ digit ≤ 'F' then some (digit.toNat - 'A'.toNat + 10)
  else none

/-- The value of a digit of this radix. -/
def digit? (radix : Nat) (digit : Char) : Option Nat :=
  (digitValue? digit).filter (· < radix)

/-- Positional value, most significant digit first. -/
def positional (radix : Nat) (digits : List Nat) : Nat :=
  digits.foldl (fun value digit => value * radix + digit) 0

/-- Split a numeral into its radix and the characters that should be digits. -/
def split : List Char → Nat × List Char
  | '0' :: 'x' :: digits => (16, digits)
  | '0' :: 'X' :: digits => (16, digits)
  | '0' :: 'o' :: digits => (8, digits)
  | '0' :: 'O' :: digits => (8, digits)
  | '0' :: 'b' :: digits => (2, digits)
  | '0' :: 'B' :: digits => (2, digits)
  | '0' :: second :: digits => (8, second :: digits)
  | digits => (10, digits)

/-- The value of a numeral in a given radix. There must be a digit, every
character must be one, and the value must stay below the bound. -/
def valueIn? (radix : Nat) (characters : List Char) : Option Nat :=
  if characters = [] then none
  else ((characters.mapM (digit? radix)).map (positional radix)).filter (· < bound)

/-- The value of a numeral, of any radix. -/
def value? (text : String) : Option Nat :=
  valueIn? (split text.toList).1 (split text.toList).2

end LetLang.Numeral
