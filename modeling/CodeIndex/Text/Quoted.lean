import CodeIndex.Text.Printable

/-!
A text in double quotes for a message: the quote, the backslash and the usual controls are escaped, and
whatever cannot be shown on its own is spelled by its number.
-/

namespace CodeIndex.Text.Quoted

def escape (c : Char) : List Char :=
  if c = '"' then ['\\', '"']
  else if c = '\\' then ['\\', '\\']
  else if c = '\n' then ['\\', 'n']
  else if c = '\r' then ['\\', 'r']
  else if c = '\t' then ['\\', 't']
  else if c.toNat = 0 then ['\\', '0']
  else if Printable.hiddenTable.contains c then ['\\', 'u', '\x7b'] ++ Nat.toDigits 16 c.toNat ++ ['\x7d']
  else [c]

/-- The text in quotes. -/
def encode (s : String) : String := .ofList (['"'] ++ s.toList.flatMap escape ++ ['"'])

end CodeIndex.Text.Quoted
