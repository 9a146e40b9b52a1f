/-! Lines of a byte stream. A line ends at a line feed, which is not part of
it, and neither is a carriage return directly before that line feed. Bytes
after the last line feed are a line of their own, if there are any. -/
namespace LetLang.Text.Line

def lineFeed : UInt8 := 0x0a

/-- Split a byte stream into its lines, without their ends. -/
def split : List UInt8 → List (List UInt8)
  | [] => []
  | 0x0d :: 0x0a :: rest => [] :: split rest
  | 0x0a :: rest => [] :: split rest
  | byte :: rest =>
      match split rest with
      | [] => [[byte]]
      | line :: lines => (byte :: line) :: lines

end LetLang.Text.Line
