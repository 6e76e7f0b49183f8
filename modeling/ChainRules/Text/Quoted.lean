import ChainRules.Text.ExtendingMark
import ChainRules.Text.Hex
import ChainRules.Text.Unprintable

/-!
# Quoted text

Text in messages stands between double quotes. The quote, the backslash and the common controls are
written with a backslash, and a character that could not be seen, or that would combine with the one
before it, as its code point in hexadecimal.
-/

namespace ChainRules.Text.Quoted

/-- A code point in braces. -/
def codePoint (c : Char) : String :=
  "\\u\x7b" ++ Hex.ofNat c.toNat ++ "\x7d"

/-- A character as it stands between quotes. -/
def escape (c : Char) : String :=
  if c = '\t' then "\\t"
  else if c = '\r' then "\\r"
  else if c = '\n' then "\\n"
  else if c = '\x00' then "\\0"
  else if c = '\\' then "\\\\"
  else if c = '"' then "\\\""
  else if isExtendingMark c || isUnprintable c then codePoint c
  else c.toString

/-- A text between quotes. -/
def encode (text : String) : String :=
  "\"" ++ String.join (text.toList.map escape) ++ "\""

end ChainRules.Text.Quoted
