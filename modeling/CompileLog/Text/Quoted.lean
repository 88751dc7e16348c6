import CompileLog.Text.Numeral
import CompileLog.Text.Shown

/-!
# Quoted text

A text between quotes, for a reader who wants to see exactly which characters it holds: quotes
and backslashes get a backslash, and what would not be seen is written as a letter or as its
code behind one.
-/

namespace CompileLog.Text

/-- A character as it stands in a quoted text. -/
def quoteChar (c : Char) : List Char :=
  if c = '"' then ['\\', '"']
  else if c = '\\' then ['\\', '\\']
  else if c = '\n' then ['\\', 'n']
  else if c = '\r' then ['\\', 'r']
  else if c = '\t' then ['\\', 't']
  else if c = '\x00' then ['\\', '0']
  else if isShown c then [c]
  else ['\\', 'u', '\x7b'] ++ hexadecimal c.toNat ++ ['\x7d']

/-- A text between quotes. -/
def quoted (text : String) : String :=
  String.ofList ('"' :: text.toList.flatMap quoteChar ++ ['"'])

end CompileLog.Text
