import HtmlWalk.Text.Printable

/-!
# Quoted text

A text in a message stands between quotation marks. The marks, the backslash and some controls are
written with a backslash before them, and characters that cannot be shown by their code points.
-/

namespace HtmlWalk.Text

/-- A character in a quoted text. -/
def quoteChar (c : Char) : List Char :=
  if c == '\x00' then ['\\', '0']
  else if c == '\t' then ['\\', 't']
  else if c == '\r' then ['\\', 'r']
  else if c == '\n' then ['\\', 'n']
  else if c == '\\' || c == '"' then ['\\', c]
  else if isPrintable c then [c]
  else "\\u\x7b".toList ++ Nat.toDigits 16 c.toNat ++ ['\x7d']

/-- A text between quotation marks. -/
def quote (s : String) : String :=
  String.ofList ('"' :: s.toList.flatMap quoteChar ++ ['"'])

end HtmlWalk.Text
