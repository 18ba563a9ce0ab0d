import Allotment.Text.Combining
import Allotment.Text.Hidden

/-! Text between double quotes, such that every character can be seen: quotes and backslashes have a backslash in
    front, and what shows nothing of its own, or only together with its neighbour, is written as its code point. -/

namespace Allotment.Text

/-- The hexadecimal digits of a number, in lower case and without leading zeros. -/
def hexadecimal (n : Nat) : String := String.ofList (Nat.toDigits 16 n)

/-- How one character stands in quoted text. -/
def escaped (c : Char) : String :=
  if c = '"' then "\\\""
  else if c = '\\' then "\\\\"
  else if c = '\n' then "\\n"
  else if c = '\r' then "\\r"
  else if c = '\t' then "\\t"
  else if c.toNat = 0 then "\\0"
  else if isCombining c || isHidden c then "\\u\x7b" ++ hexadecimal c.toNat ++ "\x7d"
  else c.toString

/-- The text between quotes. -/
def quoted (text : String) : String := "\"" ++ String.join (text.toList.map escaped) ++ "\""

end Allotment.Text
