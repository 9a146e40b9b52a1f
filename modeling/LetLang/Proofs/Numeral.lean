import Mathlib.Data.Nat.Digits.Lemmas
import LetLang.Proofs.Grammar.Acceptance
import LetLang.Proofs.Token.Relexing

/-! Numerals. A text has a value exactly if it is an optional radix mark before
digits of that radix whose positional value fits in 63 bits, and the value is
that one. Every run of decimal digits is therefore a program of one statement,
with its value or with the one diagnostic that it has none, and the decimal
text of a number in the range is read back as the number. -/
namespace LetLang

namespace Numeral

/-- The character is the digit of this value, in either case. -/
def IsDigit (radix : Nat) (character : Char) (digit : Nat) : Prop :=
  digit < radix ∧ (character = digit.digitChar ∨ character = digit.digitChar.toUpper)

/-- The characters are digits of the radix, at least one, and each counts for
its value times the power of the radix that belongs to its place. -/
def Writes (radix : Nat) (characters : List Char) (value : Nat) : Prop :=
  characters ≠ [] ∧ ∃ digits, List.Forall₂ (IsDigit radix) characters digits ∧
    Nat.ofDigits radix digits.reverse = value

/-- The numbers that texts stand for, without a limit on their size. A zero
in front of other digits marks radix eight as `0o` does. -/
inductive Denotes : List Char → Nat → Prop where
  | hexadecimal {mark : Char} {digits : List Char} {value : Nat}
      (hMark : mark = 'x' ∨ mark = 'X') (hDigits : Writes 16 digits value) :
      Denotes ('0' :: mark :: digits) value
  | octal {mark : Char} {digits : List Char} {value : Nat}
      (hMark : mark = 'o' ∨ mark = 'O') (hDigits : Writes 8 digits value) :
      Denotes ('0' :: mark :: digits) value
  | binary {mark : Char} {digits : List Char} {value : Nat}
      (hMark : mark = 'b' ∨ mark = 'B') (hDigits : Writes 2 digits value) :
      Denotes ('0' :: mark :: digits) value
  | leadingZero {digits : List Char} {value : Nat} (hDigits : Writes 8 digits value) :
      Denotes ('0' :: digits) value
  | zero : Denotes ['0'] 0
  | decimal {first : Char} {digits : List Char} {value : Nat} (hFirst : first ≠ '0')
      (hDigits : Writes 10 (first :: digits) value) :
      Denotes (first :: digits) value

/-- The digits below sixteen have their values in either case. -/
theorem digitValue?_digitChar :
    ∀ digit < 16, digitValue? digit.digitChar = some digit ∧
      digitValue? digit.digitChar.toUpper = some digit := by
  decide

/-- The digits form three intervals of characters, and in each of them the
values follow the code points. -/
theorem exists_of_digitValue? {character : Char} {digit : Nat}
    (h : digitValue? character = some digit) :
    (digit < 10 ∧ character.toNat = '0'.toNat + digit) ∨
      (10 ≤ digit ∧ digit < 16 ∧ character.toNat = 'a'.toNat + (digit - 10)) ∨
      (10 ≤ digit ∧ digit < 16 ∧ character.toNat = 'A'.toNat + (digit - 10)) := by
  have hLe (first last : Char) : first ≤ last ↔ first.toNat ≤ last.toNat := by
    rw [Char.le_def, UInt32.le_iff_toNat_le]
    rfl
  have hCodes : '0'.toNat = 48 ∧ '9'.toNat = 57 ∧ 'a'.toNat = 97 ∧ 'f'.toNat = 102 ∧
      'A'.toNat = 65 ∧ 'F'.toNat = 70 := by
    decide
  simp only [digitValue?, hLe] at h
  split_ifs at h with hDecimal hLower hUpper
  · obtain rfl := Option.some.inj h
    omega
  · obtain rfl := Option.some.inj h
    omega
  · obtain rfl := Option.some.inj h
    omega

/-- No other character has a value, in particular no digit of another script. -/
theorem digitChar_of_digitValue? {character : Char} {digit : Nat}
    (h : digitValue? character = some digit) :
    digit < 16 ∧ (character = digit.digitChar ∨ character = digit.digitChar.toUpper) := by
  have hDecimal : ∀ digit < 10, Char.ofNat ('0'.toNat + digit) = digit.digitChar := by decide
  have hLower : ∀ digit < 16, 10 ≤ digit →
      Char.ofNat ('a'.toNat + (digit - 10)) = digit.digitChar := by decide
  have hUpper : ∀ digit < 16, 10 ≤ digit →
      Char.ofNat ('A'.toNat + (digit - 10)) = digit.digitChar.toUpper := by decide
  rcases exists_of_digitValue? h with
    ⟨hDigit, hCode⟩ | ⟨hTen, hDigit, hCode⟩ | ⟨hTen, hDigit, hCode⟩
  · refine ⟨by omega, .inl ?_⟩
    rw [← hDecimal digit hDigit, ← hCode, Char.ofNat_toNat]
  · refine ⟨hDigit, .inl ?_⟩
    rw [← hLower digit hDigit hTen, ← hCode, Char.ofNat_toNat]
  · refine ⟨hDigit, .inr ?_⟩
    rw [← hUpper digit hDigit hTen, ← hCode, Char.ofNat_toNat]

/-- Up to radix sixteen, which is the largest that a mark can choose, the characters are
tested for exactly the digits below the radix. -/
theorem digit?_eq_some_iff {radix : Nat} (hRadix : radix ≤ 16) (character : Char) (digit : Nat) :
    digit? radix character = some digit ↔ IsDigit radix character digit := by
  rw [digit?, Option.filter_eq_some_iff, decide_eq_true_iff]
  constructor
  · rintro ⟨hValue, hDigit⟩
    exact ⟨hDigit, (digitChar_of_digitValue? hValue).2⟩
  · rintro ⟨hDigit, rfl | rfl⟩
    · exact ⟨(digitValue?_digitChar digit (by omega)).1, hDigit⟩
    · exact ⟨(digitValue?_digitChar digit (by omega)).2, hDigit⟩

/-- Converting every character succeeds with the values of the digits. -/
theorem mapM_digit?_eq_some_iff {radix : Nat} (hRadix : radix ≤ 16) (characters : List Char)
    (digits : List Nat) :
    characters.mapM (digit? radix) = some digits ↔
      List.Forall₂ (IsDigit radix) characters digits := by
  induction characters generalizing digits with
  | nil => cases digits <;> simp
  | cons first rest ih =>
      cases digits with
      | nil => simp [List.mapM_cons, Option.bind_eq_some_iff]
      | cons digit later =>
          rw [List.forall₂_cons, ← digit?_eq_some_iff hRadix, ← ih]
          simp [List.mapM_cons, Option.bind_eq_some_iff]

/-- The first digit is the most significant one, where the library has the least
significant first. -/
theorem positional_eq_ofDigits (radix : Nat) (digits : List Nat) :
    positional radix digits = Nat.ofDigits radix digits.reverse := by
  rw [Nat.ofDigits_eq_foldr, List.foldr_reverse, positional]
  congr 1
  funext value digit
  rw [Nat.mul_comm, Nat.add_comm]
  rfl

/-- A run of digits has its positional value if that is within the bound, which is checked
last. No digits have no value. -/
theorem valueIn?_eq_some_iff {radix : Nat} (hRadix : radix ≤ 16) (characters : List Char)
    (value : Nat) :
    valueIn? radix characters = some value ↔ Writes radix characters value ∧ value < bound := by
  unfold valueIn? Writes
  split_ifs with hEmpty
  · simp [hEmpty]
  · simp only [Option.filter_eq_some_iff, Option.map_eq_some_iff, decide_eq_true_iff,
      mapM_digit?_eq_some_iff hRadix, positional_eq_ofDigits, ne_eq, hEmpty, not_false_eq_true,
      true_and]

theorem Writes.singleton {radix : Nat} {character : Char} {digit : Nat}
    (h : IsDigit radix character digit) : Writes radix [character] digit :=
  ⟨by simp, [digit], .cons h .nil, by simp⟩

/-- One more digit moves the others up a place. -/
theorem Writes.concat {radix : Nat} {characters : List Char} {value : Nat} {last : Char}
    {digit : Nat} (h : Writes radix characters value) (hLast : IsDigit radix last digit) :
    Writes radix (characters ++ [last]) (digit + radix * value) := by
  obtain ⟨-, digits, hDigits, rfl⟩ := h
  refine ⟨by simp, digits ++ [digit], List.rel_append hDigits (.cons hLast .nil), ?_⟩
  rw [List.reverse_append, List.reverse_singleton, List.singleton_append, Nat.ofDigits_cons]

/-- The first character alone can tell that a text is no numeral of a radix. -/
theorem Writes.exists_isDigit {radix : Nat} {first : Char} {rest : List Char} {value : Nat}
    (h : Writes radix (first :: rest) value) : ∃ digit, IsDigit radix first digit := by
  obtain ⟨-, digits, hDigits, -⟩ := h
  cases hDigits with
  | cons hFirst hRest => exact ⟨_, hFirst⟩

/-- No octal digit is a radix mark, so a zero in front of one is itself the mark. -/
theorem split_of_isDigit {second : Char} {digit : Nat} (hSecond : IsDigit 8 second digit)
    (digits : List Char) : split ('0' :: second :: digits) = (8, second :: digits) := by
  have hMarks : ['x', 'X', 'o', 'O', 'b', 'B'].all (fun mark => digit? 8 mark == none) = true := by
    decide
  have hNoMark : second ∉ ['x', 'X', 'o', 'O', 'b', 'B'] := by
    intro hMem
    have hRead := (digit?_eq_some_iff (by decide) second digit).mpr hSecond
    have hNone := List.all_eq_true.mp hMarks second hMem
    rw [hRead] at hNone
    cases hNone
  simp only [List.mem_cons, List.not_mem_nil, or_false, not_or] at hNoMark
  obtain ⟨hx, hX, ho, hO, hb, hB⟩ := hNoMark
  exact split.eq_7 second digits hx hX ho hO hb hB

/-- Radix marks start with a zero, so all else is decimal. -/
theorem split_of_ne_zero {first : Char} (hFirst : first ≠ '0') (digits : List Char) :
    split (first :: digits) = (10, first :: digits) := by
  unfold split
  split
  all_goals simp_all

/-- A lone zero is the one numeral with a zero in front that is decimal. -/
theorem Writes.eq_zero {value : Nat} (h : Writes 10 ['0'] value) : value = 0 := by
  obtain ⟨-, digits, hDigits, rfl⟩ := h
  rw [← mapM_digit?_eq_some_iff (by decide)] at hDigits
  have hZero : ['0'].mapM (digit? 10) = some [0] := by decide
  obtain rfl := Option.some.inj (hZero.symm.trans hDigits)
  rfl

/-- A decimal numeral starts with a zero only if that is all of it. -/
theorem Writes.denotes {characters : List Char} {value : Nat} (h : Writes 10 characters value)
    (hAlone : ∀ second digits, characters ≠ '0' :: second :: digits) :
    Denotes characters value := by
  obtain ⟨first, rest, rfl⟩ := List.exists_cons_of_ne_nil h.1
  by_cases hFirst : first = '0'
  · subst hFirst
    cases rest with
    | nil =>
        obtain rfl := h.eq_zero
        exact .zero
    | cons second digits => exact absurd rfl (hAlone second digits)
  · exact .decimal hFirst h

/-- The split of a numeral tells which of the forms it has. -/
theorem writes_split_iff (characters : List Char) (value : Nat) :
    Writes (split characters).1 (split characters).2 value ↔ Denotes characters value := by
  constructor
  · intro h
    unfold split at h
    split at h
    · exact .hexadecimal (.inl rfl) h
    · exact .hexadecimal (.inr rfl) h
    · exact .octal (.inl rfl) h
    · exact .octal (.inr rfl) h
    · exact .binary (.inl rfl) h
    · exact .binary (.inr rfl) h
    · exact .leadingZero h
    · next hNoMark => exact h.denotes hNoMark
  · intro h
    cases h with
    | hexadecimal hMark hDigits => rcases hMark with rfl | rfl <;> exact hDigits
    | octal hMark hDigits => rcases hMark with rfl | rfl <;> exact hDigits
    | binary hMark hDigits => rcases hMark with rfl | rfl <;> exact hDigits
    | @leadingZero digits _ hDigits =>
        obtain ⟨second, rest, rfl⟩ := List.exists_cons_of_ne_nil hDigits.1
        obtain ⟨digit, hSecond⟩ := hDigits.exists_isDigit
        rw [split_of_isDigit hSecond]
        exact hDigits
    | zero => exact .singleton ⟨by decide, .inl rfl⟩
    | decimal hFirst hDigits =>
        rw [split_of_ne_zero hFirst]
        exact hDigits

/-- The radix is one of four, the largest of them sixteen. -/
theorem split_radix_pos_and_le (characters : List Char) :
    0 < (split characters).1 ∧ (split characters).1 ≤ 16 := by
  fun_cases split characters <;> simp

/-- A text that denotes nothing and a number out of range both have no value, and nothing
else does. -/
theorem value?_eq_some_iff_denotes (text : String) (value : Nat) :
    value? text = some value ↔ Denotes text.toList value ∧ value < bound := by
  rw [value?, valueIn?_eq_some_iff (split_radix_pos_and_le text.toList).2, writes_split_iff]

/-- The bound itself is the first number that does not fit. -/
theorem lt_bound_iff (value : Nat) : value < bound ↔ value ≤ 2 ^ 63 - 1 := by
  rw [bound]
  omega

/-- Take in one more digit, and give up as soon as the value leaves the range. -/
def takeDigit? (radix value : Nat) (character : Char) : Option Nat :=
  ((digit? radix character).map (value * radix + ·)).filter (· < bound)

/-- Digits behind a value never make it smaller, as the radix is not zero. -/
theorem le_foldl_positional {radix : Nat} (hRadix : 0 < radix) (digits : List Nat) (value : Nat) :
    value ≤ digits.foldl (fun value digit => value * radix + digit) value := by
  induction digits generalizing value with
  | nil => exact Nat.le_refl value
  | cons digit digits ih =>
      calc
        value ≤ value * radix := Nat.le_mul_of_pos_right value hRadix
        _ ≤ value * radix + digit := Nat.le_add_right _ digit
        _ ≤ _ := ih _

/-- For a digit of the radix only the bound is left to check. Any other character is given
up on before. -/
theorem takeDigit?_of_digit? {radix digit : Nat} {character : Char}
    (h : digit? radix character = some digit) (value : Nat) :
    takeDigit? radix value character =
      if value * radix + digit < bound then some (value * radix + digit) else none := by
  simp [takeDigit?, h, Option.filter]

/-- The bound may be checked at every digit or once at the end, because a value that was
once out of range stays so. By induction on the digits, from any value in range. -/
theorem foldlM_takeDigit?_eq {radix : Nat} (hRadix : 0 < radix) (characters : List Char)
    {value : Nat} (hValue : value < bound) :
    characters.foldlM (takeDigit? radix) value =
      ((characters.mapM (digit? radix)).map
        (List.foldl (fun value digit => value * radix + digit) value)).filter (· < bound) := by
  induction characters generalizing value with
  | nil => simp [Option.filter, hValue]
  | cons first rest ih =>
      rw [List.foldlM_cons, List.mapM_cons]
      cases hFirst : digit? radix first with
      | none =>
          rw [takeDigit?, hFirst]
          rfl
      | some digit =>
          rw [takeDigit?_of_digit? hFirst]
          split_ifs with hNext
          · change List.foldlM (takeDigit? radix) (value * radix + digit) rest = _
            rw [ih hNext]
            cases rest.mapM (digit? radix) <;> rfl
          · cases rest.mapM (digit? radix) with
            | none => rfl
            | some digits =>
                have hLe := le_foldl_positional hRadix digits (value * radix + digit)
                have hOut : ¬ digits.foldl (fun value digit => value * radix + digit)
                    (value * radix + digit) < bound := by
                  omega
                simp [Option.filter, hOut]

theorem isDigit_digitChar {radix digit : Nat} (h : digit < radix) :
    IsDigit radix digit.digitChar digit :=
  ⟨h, .inl rfl⟩

/-- By induction on the number that is left without its last digit. -/
theorem writes_toDigits (number : Nat) : Writes 10 (Nat.toDigits 10 number) number := by
  induction number using Nat.strongRecOn with
  | ind number ih =>
      rw [Nat.toDigits_eq_if (by decide)]
      split_ifs with hSmall
      · exact .singleton (isDigit_digitChar hSmall)
      · have hLast := isDigit_digitChar (Nat.mod_lt number (show 0 < 10 by decide))
        have hAll := (ih (number / 10) (by omega)).concat hLast
        rwa [Nat.mod_add_div] at hAll

/-- The decimal text of a number has no zeros in front, or it would be read as octal. -/
theorem head?_toDigits_ne_zero {number : Nat} (h : 0 < number) :
    (Nat.toDigits 10 number).head? ≠ some '0' := by
  induction number using Nat.strongRecOn with
  | ind number ih =>
      rw [Nat.toDigits_eq_if (by decide)]
      split_ifs with hSmall
      · have hDigits : ∀ digit < 10, 0 < digit → [digit.digitChar].head? ≠ some '0' := by decide
        exact hDigits number hSmall h
      · rw [List.head?_append_of_ne_nil _ Nat.toDigits_ne_nil]
        exact ih (number / 10) (by omega) (by omega)

/-- Zero is the only number whose decimal text starts with a zero, and has its own
form. -/
theorem denotes_toDigits (number : Nat) : Denotes (Nat.toDigits 10 number) number := by
  refine (writes_toDigits number).denotes ?_
  intro second digits hDigits
  rcases Nat.eq_zero_or_pos number with rfl | hPos
  · simp at hDigits
  · exact head?_toDigits_ne_zero hPos (by rw [hDigits]; rfl)

/-- The lexer reads the decimal text of a number as a single token. -/
theorem isNumeral_toString (number : Nat) : Text.IsNumeral (toString number) := by
  rw [Text.IsNumeral, Nat.toString_eq_ofList_toDigits, String.toList_ofList]
  exact ⟨Nat.toDigits_ne_nil, fun _ => Nat.isDigit_of_mem_toDigits (by decide) (by decide)⟩

end Numeral

/-- A numeral on its own is read as its value, at any level but the last. -/
theorem Expr.read_numeral (levels : Nat) (floor : Precedence) (numeral : String) :
    Expr.read (levels + 1) floor [⟨.int, numeral⟩] =
      match Numeral.value? numeral with
      | some value => .found (.integer ⟨.int, numeral⟩ value) []
      | none => .failed (.badInteger numeral) [] := by
  cases hValue : Numeral.value? numeral with
  | none => simp [Expr.read, Expr.readOperand, hValue]
  | some value => simp [Expr.read, Expr.readOperand, Expr.readOperators, hValue]

namespace Program

open Attempt

/-- A run of digits is one statement, complete if the digits have a value. -/
theorem attempts_numeral {numeral : String} (h : Text.IsNumeral numeral) :
    attempts numeral =
      match Numeral.value? numeral with
      | some value =>
          [complete (.expression ⟨.int, numeral⟩ (some (.integer ⟨.int, numeral⟩ value)))]
      | none => [incomplete (.expression ⟨.int, numeral⟩ none) (.badInteger numeral)] := by
  have hStream : Lexer.stream (Text.bytes numeral ++ []) = ⟨.int, numeral⟩ :: Lexer.stream [] :=
    Lexer.stream_numeral_append h (by simp)
  rw [List.append_nil, Lexer.stream_nil] at hStream
  rw [attempts, hStream, readAll_cons (by simp), read_of_ne_keyword (by simp),
    Expr.nestingLimit, Expr.read_numeral]
  cases Numeral.value? numeral with
  | none => simp [finish, dropSemicolon, readAll]
  | some value => simp [finish, dropSemicolon, readAll]

/-- Nothing but the one statement comes of it, and no diagnostic. -/
theorem parse_numeral_of_value? {numeral : String} (hNumeral : Text.IsNumeral numeral)
    {value : Nat} (hValue : Numeral.value? numeral = some value) :
    parse numeral =
      (⟨[.expression ⟨.int, numeral⟩ (some (.integer ⟨.int, numeral⟩ value))]⟩, []) := by
  rw [parse_eq, attempts_numeral hNumeral, hValue]
  rfl

/-- The statement stays, without a value, and the diagnostic quotes the digits. -/
theorem parse_numeral_of_value?_eq_none {numeral : String} (hNumeral : Text.IsNumeral numeral)
    (hValue : Numeral.value? numeral = none) :
    parse numeral = (⟨[.expression ⟨.int, numeral⟩ none]⟩, [.badInteger numeral]) := by
  rw [parse_eq, attempts_numeral hNumeral, hValue]
  rfl

end Program

/-- A text has a value exactly if it denotes one that fits in 63 bits, and
checking the bound at every digit finds the same value. A run of decimal
digits parses to one expression statement, either with the value that it
denotes or with none and the one diagnostic that says so; the decimal text of
a number in the range parses to that number. -/
theorem Numeral.has_value_iff_denotes_and_parse :
    (∀ (text : String) (value : Nat),
      value? text = some value ↔ Denotes text.toList value ∧ value ≤ 2 ^ 63 - 1) ∧
    (∀ text : String, (split text.toList).2 ≠ [] →
      value? text = (split text.toList).2.foldlM (takeDigit? (split text.toList).1) 0) ∧
    (∀ numeral : String, Text.IsNumeral numeral →
      (∀ value : Nat, Denotes numeral.toList value → value ≤ 2 ^ 63 - 1 →
        Program.parse numeral =
          (⟨[.expression ⟨.int, numeral⟩ (some (.integer ⟨.int, numeral⟩ value))]⟩, [])) ∧
      ((∀ value : Nat, Denotes numeral.toList value → 2 ^ 63 - 1 < value) →
        Program.parse numeral =
          (⟨[.expression ⟨.int, numeral⟩ none]⟩, [.badInteger numeral]))) ∧
    ∀ number : Nat, number ≤ 2 ^ 63 - 1 →
      Program.parse (toString number) =
        (⟨[.expression ⟨.int, toString number⟩
          (some (.integer ⟨.int, toString number⟩ number))]⟩, []) := by
  have hValue (text : String) (value : Nat) :
      value? text = some value ↔ Denotes text.toList value ∧ value ≤ 2 ^ 63 - 1 := by
    rw [value?_eq_some_iff_denotes, lt_bound_iff]
  refine ⟨hValue, ?_, ?_, ?_⟩
  · intro text hDigits
    rw [foldlM_takeDigit?_eq (split_radix_pos_and_le _).1 _ (by decide), value?, valueIn?,
      if_neg hDigits]
    rfl
  · intro numeral hNumeral
    refine ⟨?_, ?_⟩
    · intro value hDenotes hLe
      exact Program.parse_numeral_of_value? hNumeral ((hValue numeral value).mpr ⟨hDenotes, hLe⟩)
    · intro hNone
      refine Program.parse_numeral_of_value?_eq_none hNumeral ?_
      rw [Option.eq_none_iff_forall_ne_some]
      intro value hSome
      obtain ⟨hDenotes, hLe⟩ := (hValue numeral value).mp hSome
      exact absurd (hNone value hDenotes) (Nat.not_lt.mpr hLe)
  · intro number hLe
    refine Program.parse_numeral_of_value? (isNumeral_toString number) ((hValue _ _).mpr ⟨?_, hLe⟩)
    rw [Nat.toString_eq_ofList_toDigits, String.toList_ofList]
    exact denotes_toDigits number

/-- A zero in front means octal, the largest number of the range is read
back from its decimal text, and the number behind it has no value. -/
theorem Numeral.has_value_at_bound :
    Text.IsNumeral "017" ∧ Denotes "017".toList 15 ∧
      value? "017" = (split "017".toList).2.foldlM (takeDigit? 8) 0 ∧
      Program.parse "017" =
        (⟨[.expression ⟨.int, "017"⟩ (some (.integer ⟨.int, "017"⟩ 15))]⟩, []) ∧
      Program.parse "9223372036854775807" =
        (⟨[.expression ⟨.int, "9223372036854775807"⟩
          (some (.integer ⟨.int, "9223372036854775807"⟩ 9223372036854775807))]⟩, []) ∧
      Text.IsNumeral "9223372036854775808" ∧
      (∀ value : Nat, Denotes "9223372036854775808".toList value → 2 ^ 63 - 1 < value) ∧
      Program.parse "9223372036854775808" =
        (⟨[.expression ⟨.int, "9223372036854775808"⟩ none]⟩,
          [.badInteger "9223372036854775808"]) := by
  obtain ⟨hValue, hStep, hNumeral, hDecimal⟩ := has_value_iff_denotes_and_parse
  have hOctal := (hValue "017" 15).mp (by decide +kernel)
  have hIsOctal : Text.IsNumeral "017" := by decide +kernel
  have hIsLarge : Text.IsNumeral "9223372036854775808" := by decide +kernel
  have hLarge (value : Nat) (h : Denotes "9223372036854775808".toList value) :
      2 ^ 63 - 1 < value := by
    have hNone : value? "9223372036854775808" = none := by decide +kernel
    by_contra hLe
    have hSome := (hValue "9223372036854775808" value).mpr ⟨h, Nat.not_lt.mp hLe⟩
    rw [hNone] at hSome
    cases hSome
  exact ⟨hIsOctal, hOctal.1, hStep "017" (by decide +kernel),
    (hNumeral "017" hIsOctal).1 15 hOctal.1 hOctal.2,
    hDecimal 9223372036854775807 (by decide), hIsLarge, hLarge,
    (hNumeral "9223372036854775808" hIsLarge).2 hLarge⟩

end LetLang
