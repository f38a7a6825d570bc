/-
Quoted text, as the descriptions of values show it.

A text stands between double quotes.  The double quote and the backslash are
written behind a backslash, four control characters by a letter or a zero, and a
hidden character by its number in lower-case hexadecimal between braces.  All
other characters stand for themselves, the single quote among them.
-/
import TaskDispatch.Text.Hidden

namespace TaskDispatch.Text

/-- The number of a character as quoted text writes it. -/
def codePoint (c : Char) : String :=
  "\\u\x7b" ++ String.ofList (Nat.toDigits 16 c.toNat) ++ "\x7d"

/-- One character inside quotes. -/
def quoteChar (c : Char) : String :=
  if c = '"' then "\\\""
  else if c = '\\' then "\\\\"
  else if c = '\n' then "\\n"
  else if c = '\t' then "\\t"
  else if c = '\r' then "\\r"
  else if c.toNat = 0 then "\\0"
  else if isHidden c then codePoint c
  else c.toString

/-- The text between double quotes. -/
def quoted (s : String) : String :=
  "\"" ++ String.join (s.toList.map quoteChar) ++ "\""

example : quoted "say \"hi\"\n" = "\"say \\\"hi\\\"\\n\"" := by decide +kernel

example : quoted "it's\u200b" = "\"it's\\u\x7b200b\x7d\"" := by decide +kernel

end TaskDispatch.Text
