/-! The kinds of token. A kind is a symbol, a keyword, or one of four open
classes; each has one printed name. Symbols are named by their own spelling,
keywords and classes by an upper-case word, so names never collide. -/
namespace LetLang

/-- Operators and delimiters, each with a single spelling. -/
inductive Symbol where
  | assign | plus | minus | bang | star | slash
  | less | greater | equal | notEqual
  | comma | semicolon
  | openParen | closeParen | openBrace | closeBrace
deriving DecidableEq

namespace Symbol

def spelling : Symbol → String
  | assign => "="
  | plus => "+"
  | minus => "-"
  | bang => "!"
  | star => "*"
  | slash => "/"
  | less => "<"
  | greater => ">"
  | equal => "=="
  | notEqual => "!="
  | comma => ","
  | semicolon => ";"
  | openParen => "("
  | closeParen => ")"
  | openBrace => "\x7b"
  | closeBrace => "\x7d"

/-- The symbol spelled by one character. The two-character symbols are
reached from their first character through `followedByEquals?`. -/
def ofChar? : Char → Option Symbol
  | '=' => some assign
  | '+' => some plus
  | '-' => some minus
  | '!' => some bang
  | '*' => some star
  | '/' => some slash
  | '<' => some less
  | '>' => some greater
  | ',' => some comma
  | ';' => some semicolon
  | '(' => some openParen
  | ')' => some closeParen
  | '\x7b' => some openBrace
  | '\x7d' => some closeBrace
  | _ => none

/-- The longer symbol that a symbol and a directly following `=` spell. -/
def followedByEquals? : Symbol → Option Symbol
  | assign => some equal
  | bang => some notEqual
  | _ => none

def all : List Symbol :=
  [assign, plus, minus, bang, star, slash, less, greater, equal, notEqual,
   comma, semicolon, openParen, closeParen, openBrace, closeBrace]

theorem mem_all (symbol : Symbol) : symbol ∈ all := by
  cases symbol <;> decide

end Symbol

/-- Reserved words. All of them are recognised; only `let` and `return`
have a place in the grammar. -/
inductive Keyword where
  | functionWord | letWord | trueWord | falseWord | ifWord | elseWord | returnWord
deriving DecidableEq

namespace Keyword

def spelling : Keyword → String
  | functionWord => "fn"
  | letWord => "let"
  | trueWord => "true"
  | falseWord => "false"
  | ifWord => "if"
  | elseWord => "else"
  | returnWord => "return"

def name : Keyword → String
  | functionWord => "FUNCTION"
  | letWord => "LET"
  | trueWord => "TRUE"
  | falseWord => "FALSE"
  | ifWord => "IF"
  | elseWord => "ELSE"
  | returnWord => "RETURN"

def all : List Keyword :=
  [functionWord, letWord, trueWord, falseWord, ifWord, elseWord, returnWord]

theorem mem_all (keyword : Keyword) : keyword ∈ all := by
  cases keyword <;> decide

/-- The keyword spelled exactly so; case matters. -/
def ofWord? (word : String) : Option Keyword :=
  all.find? fun keyword => keyword.spelling == word

theorem ofWord?_spelling (keyword : Keyword) : ofWord? keyword.spelling = some keyword := by
  cases keyword <;> decide

/-- A word spells the keyword it is read as, letter by letter. -/
theorem spelling_of_ofWord? {word : String} {keyword : Keyword}
    (h : ofWord? word = some keyword) : keyword.spelling = word := by
  simpa using List.find?_some h

end Keyword

/-- The class of a token. `illegal` is a byte that starts no token, `eof` the
end of the input or a NUL byte in it. -/
inductive Kind where
  | illegal
  | eof
  | ident
  | int
  | symbol (symbol : Symbol)
  | keyword (keyword : Keyword)
deriving DecidableEq

namespace Kind

def name : Kind → String
  | illegal => "ILLEGAL"
  | eof => "EOF"
  | ident => "IDENT"
  | int => "INT"
  | symbol s => s.spelling
  | keyword k => k.name

def isKeyword : Kind → Bool
  | keyword _ => true
  | _ => false

/-- A word is a keyword if it spells one, and an identifier otherwise. -/
def ofWord (word : String) : Kind :=
  match Keyword.ofWord? word with
  | some k => keyword k
  | none => ident

def all : List Kind :=
  [illegal, eof, ident, int] ++ Symbol.all.map symbol ++ Keyword.all.map keyword

theorem mem_all (kind : Kind) : kind ∈ all := by
  cases kind <;> simp [all, Symbol.mem_all, Keyword.mem_all]

/-- The kind with this printed name. -/
def ofName? (name : String) : Option Kind :=
  all.find? fun kind => kind.name == name

/-- Printed names tell all kinds apart. -/
theorem ofName?_name (kind : Kind) : ofName? kind.name = some kind := by
  rcases kind with _ | _ | _ | _ | s | k
  · decide
  · decide
  · decide
  · decide
  · cases s <;> decide
  · cases k <;> decide

theorem name_injective {first second : Kind} (h : first.name = second.name) : first = second := by
  have hFirst := ofName?_name first
  rw [h, ofName?_name second] at hFirst
  exact (Option.some.inj hFirst).symm

end Kind

end LetLang
