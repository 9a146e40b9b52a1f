/-! Terminal styles. Styled text stands between an opening and a closing
control sequence; a style adds nothing else. -/
namespace LetLang.Text

structure Style where
  opening : String
  closing : String
deriving DecidableEq

namespace Style

def escape : String := "\x1b["

/-- A foreground colour of the 256-colour palette, by its number. -/
def foreground (number : String) : Style :=
  ⟨escape ++ "38;5;" ++ number ++ "m", escape ++ "39m"⟩

def red : Style := foreground "9"

def yellow : Style := foreground "11"

def blue : Style := foreground "12"

/-- Dark green and bold, closed by a full reset. -/
def prompt : Style := ⟨escape ++ "38;5;2m" ++ escape ++ "1m", escape ++ "0m"⟩

def apply (style : Style) (text : String) : String := style.opening ++ text ++ style.closing

end Style

/-- Apply a style if there is one. -/
def styled : Option Style → String → String
  | none, text => text
  | some style, text => style.apply text

end LetLang.Text
