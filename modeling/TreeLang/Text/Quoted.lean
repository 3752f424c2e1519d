import TreeLang.Text.Printable
import TreeLang.Text.Ignorable
import TreeLang.Text.ExtendingMark

namespace TreeLang.Text

def hexadecimal (c : Char) : List Char :=
  Nat.toDigits 16 c.toNat

-- A character that would not show as itself: it has no form, a display leaves
-- it out, or it melts into the character before it.
def isHidden (c : Char) : Bool :=
  !isPrintable c || isIgnorable c || isExtendingMark c

-- A character inside quotes: the quote and the backslash after a backslash, the
-- common controls by their letters, and by its code point all else that is
-- hidden.
def escape : Char → List Char
  | '"' => ['\\', '"']
  | '\\' => ['\\', '\\']
  | '\n' => ['\\', 'n']
  | '\r' => ['\\', 'r']
  | '\t' => ['\\', 't']
  | '\x00' => ['\\', '0']
  | c =>
      if isHidden c then ['\\', 'u', '\x7b'] ++ hexadecimal c ++ ['\x7d'] else [c]

def quoted (text : String) : String :=
  String.ofList ('"' :: text.toList.flatMap escape ++ ['"'])

end TreeLang.Text
