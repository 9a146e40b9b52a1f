import LetLang.Text.Unicode.Invisible

/-! Quoted text: double quotes around it, with quotes, backslashes and invisible
characters written as escapes, so that the quoted form is one line that shows
every character. -/
namespace LetLang.Text.Quoted

/-- A character by its code point: hexadecimal, lower case, no leading zeros. -/
def codePoint (character : Char) : List Char :=
  ['\\', 'u', '\x7b'] ++ Nat.toDigits 16 character.toNat ++ ['\x7d']

/-- Four control characters have a letter or digit of their own; a single
quote needs no escape inside double quotes. A mark is escaped also where it has
a character before it to attach to. -/
def escape (character : Char) : List Char :=
  match character with
  | '"' => ['\\', '"']
  | '\\' => ['\\', '\\']
  | '\x00' => ['\\', '0']
  | '\t' => ['\\', 't']
  | '\n' => ['\\', 'n']
  | '\r' => ['\\', 'r']
  | _ => if Unicode.isInvisible character then codePoint character else [character]

def encode (text : String) : String :=
  String.ofList (['"'] ++ text.toList.flatMap escape ++ ['"'])

end LetLang.Text.Quoted
