import Chip8.Text.Hex
import Chip8.Text.Hidden

/-! # Quoted text for messages

A text between double quotes, in which the quote, the backslash and every hidden character are
written as escapes.
-/

namespace Chip8.Text.Quoted

def escape (c : Char) : String :=
  if c = '\x00' then "\\0"
  else if c = '\t' then "\\t"
  else if c = '\r' then "\\r"
  else if c = '\n' then "\\n"
  else if c = '\x22' then "\\\""
  else if c = '\\' then "\\\\"
  else if isHidden c then "\\u\x7b" ++ Hex.lower 1 c.toNat ++ "\x7d"
  else String.singleton c

def quote (text : String) : String := "\"" ++ String.join (text.toList.map escape) ++ "\""

end Chip8.Text.Quoted
